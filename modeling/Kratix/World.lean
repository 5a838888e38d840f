import Kratix.Api.Externals
import Kratix.Lib.FileTree
import Kratix.Lib.Program
import Kratix.Writers

/-!
# The world the controllers act on

The cluster, the content of the state stores, and the in-memory cache of the
WorkPlacement controller. Controllers reach it by the calls of `Call`;
`faulty` lists every outcome of a call, and `serveCall` answers a call without
any fault.
-/

namespace Kratix

open Apiserver Effect GoPath

/-- What the controller for the requests of a Promise looks up while it runs. -/
inductive ControllerFlag
  | enabled
  | canCreateResources
  deriving DecidableEq

inductive Call
  | api (call : ApiCall scheme)
  | newUUID
  | randIntn (n : ℕ)
  | now
  /-- The order in which a map with these keys is iterated. -/
  | mapOrder (keys : List String)
  /-- Read the credentials of a state store and build its client. -/
  | connect (ref : StateStoreRef)
  | updateFiles (w : Writer) (subDir : Path) (workPlacementName : String)
      (workloadsToCreate : List Workload) (workloadsToDelete : List Path)
  | readFile (w : Writer) (filePath : Path)
  | cachedVersion (uniqueID : String)
  | cacheVersion (uniqueID : String) (versionID : Option String)
  /-- Have the manager run a controller for the requests of a Promise, unless it does so
  already, and tell the controller whether it may set up requests. -/
  | startController (name : String) (canCreateResources : Bool)
  /-- Switch the controller off, if there is one. -/
  | disableController (name : String)
  | controllerFlag (name : String) (flag : ControllerFlag)

@[reducible]
def Call.Answer : Call → Type
  | api call => Except ApiError call.Result
  | newUUID => String
  | randIntn _ => ℕ
  | now => ℕ
  | mapOrder _ => List String
  | connect _ => Except ApiError Unit
  | updateFiles _ _ _ _ _ => Except StoreError String
  | readFile _ _ => Except StoreError Bytes
  | cachedVersion _ => Option String
  | cacheVersion _ _ => Unit
  | startController _ _ => Except ApiError Unit
  | disableController _ => Unit
  | controllerFlag _ _ => Bool

abbrev signature : Signature := ⟨Call, Call.Answer⟩

abbrev Prog (α : Type) := Program signature α

structure World where
  cluster : Cluster scheme
  files : String → Files := fun _ => ∅
  versionCache : StringMap String := ∅

namespace World

def withCluster (s : World) (c : Cluster scheme) : World := { s with cluster := c }

def withFiles (s : World) (backend : String) (files : Files) : World :=
  { s with files := Function.update s.files backend files }

def withVersion (s : World) (uniqueID : String) : Option String → World
  | none => { s with versionCache := s.versionCache.erase uniqueID }
  | some v => { s with versionCache := s.versionCache.insert uniqueID v }

@[simp] theorem cluster_withCluster (s : World) (c : Cluster scheme) :
    (s.withCluster c).cluster = c := rfl

@[simp] theorem files_withCluster (s : World) (c : Cluster scheme) :
    (s.withCluster c).files = s.files := rfl

@[simp] theorem cluster_withFiles (s : World) (backend : String) (files : Files) :
    (s.withFiles backend files).cluster = s.cluster := rfl

@[simp] theorem cluster_withVersion (s : World) (uniqueID : String) (v : Option String) :
    (s.withVersion uniqueID v).cluster = s.cluster := by
  cases v <;> rfl

end World

def emptyWorld : World := ⟨Cluster.empty scheme, fun _ => ∅, ∅⟩

/-! ### Outcomes of calls -/

/-- The five characters of a UUID that go into a generated name. -/
def shortUUID (uuid : String) : String := String.ofList (uuid.toList.take 5)

/-- The part of a new UUID that generated names use: five alphanumeric
characters, and no Job and no Work has a name that ends in it. -/
def IsFresh (c : Cluster scheme) (uuid : String) : Prop :=
  (∀ o ∈ c.objects .job, ¬ (shortUUID uuid).toList <:+ o.metadata.name.toList) ∧
    (∀ o ∈ c.objects .work, ¬ (shortUUID uuid).toList <:+ o.metadata.name.toList) ∧
    (uuid.toList.take 5).length = 5 ∧ ∀ c ∈ uuid.toList.take 5, c.isAlphanum = true

instance (c : Cluster scheme) (uuid : String) : Decidable (IsFresh c uuid) :=
  have : Decidable (∀ c ∈ uuid.toList.take 5, c.isAlphanum = true) := List.decidableBAll _ _
  inferInstanceAs (Decidable ((∀ o ∈ _, _) ∧ (∀ o ∈ _, _) ∧ _ ∧ ∀ c ∈ _, _))

/-- The content of a store after an update by one of its writers. -/
def updated (env : Externals) (localTmpDir : Path) (w : Writer) (subDir : Path)
    (workloadsToCreate : List Workload) (workloadsToDelete : List Path) (files : Files) :
    Except StoreError Files :=
  match w.kind with
  | .git => GitWriter.update localTmpDir w subDir workloadsToCreate workloadsToDelete files
  | .bucket => .ok (S3Writer.update env.etag w subDir workloadsToCreate workloadsToDelete files)

/-- The directory of a clone: a fresh one below the directory for temporary files. -/
def cloneDirectory (suffix : String) : Path := ["", "tmp", "kratix-repo" ++ suffix]

/-- An update of a state store that may fail. -/
def MayFailToUpdate (env : Externals) (w : Writer) (subDir : Path)
    (workloadsToCreate : List Workload) (workloadsToDelete : List Path) (before : Files)
    (r : Except StoreError String) (after : Files) : Prop :=
  match w.kind with
  | .git => GitWriter.Outcome w subDir workloadsToCreate workloadsToDelete before r after
  | .bucket =>
    S3Writer.Outcome env.etag w subDir workloadsToCreate workloadsToDelete before r after

/-- Reading a file may fail. The Git writer takes any failure of `Lstat` for a
missing file. -/
def MayFailToRead (w : Writer) (filePath : Path) (files : Files) (r : Except StoreError Bytes) :
    Prop :=
  r = readFile w filePath files ∨ ∃ e, r = .error e ∧ (e = .fileNotFound → w.kind = .git)

/-- Every outcome of a call, faults included. -/
def faulty (env : Externals) : Handler signature World
  | .api call, s, r, t => ∃ c, MayFail call s.cluster r c ∧ t = s.withCluster c
  | .newUUID, s, r, t => IsFresh s.cluster r ∧ t = s
  | .randIntn n, s, r, t => (show ℕ from r) < n ∧ t = s
  | .now, s, _, t => t = s
  | .mapOrder keys, s, r, t => (show List String from r).Perm keys ∧ t = s
  | .connect _, s, r, t => (∀ e, r = .error e → e.isFault = true) ∧ t = s
  | .updateFiles w subDir _ create delete, s, r, t => ∃ files,
      MayFailToUpdate env w subDir create delete (s.files w.backend) r files ∧
        t = s.withFiles w.backend files
  | .readFile w filePath, s, r, t =>
      MayFailToRead w filePath (s.files w.backend) r ∧ t = s
  | .cachedVersion uniqueID, s, r, t => r = s.versionCache.lookup uniqueID ∧ t = s
  | .cacheVersion uniqueID versionID, s, _, t => t = s.withVersion uniqueID versionID
  | .startController _ _, s, _, t => t = s
  | .disableController _, s, _, t => t = s
  | .controllerFlag _ _, s, _, t => t = s

/-- The outcomes of a call without faults. -/
def faultFree (env : Externals) : Handler signature World
  | .api call, s, r, t => (r, t) = ((serve call s.cluster).1, s.withCluster (serve call s.cluster).2)
  | .connect _, s, r, t => r = .ok () ∧ t = s
  | .startController _ _, s, r, t => r = .ok () ∧ t = s
  | .updateFiles w subDir _ create delete, s, r, t => ∃ suffix,
      match updated env (cloneDirectory suffix) w subDir create delete (s.files w.backend) with
      | .error e => r = .error e ∧ t = s
      | .ok files => ∃ versionID, r = .ok versionID ∧ t = s.withFiles w.backend files
  | .readFile w filePath, s, r, t => r = readFile w filePath (s.files w.backend) ∧ t = s
  | call, s, r, t => faulty env call s r t

theorem withFiles_self (s : World) (backend : String) :
    s.withFiles backend (s.files backend) = s := by
  simp [World.withFiles, Function.update_eq_self]

theorem isPlain_cloneDirectory (suffix : String) : isPlain ("kratix-repo" ++ suffix) = true := by
  have hne {text : String} (hlen : text.length < 11) : "kratix-repo" ++ suffix ≠ text := by
    rintro rfl
    rw [String.length_append, show "kratix-repo".length = 11 from rfl] at hlen
    omega
  simp only [isPlain, Bool.and_eq_true, bne_iff_ne]
  exact ⟨⟨hne (by decide), hne (by decide)⟩, hne (by decide)⟩

theorem mayFailToUpdate_error {env : Externals} {w : Writer} {subDir : Path}
    {create : List Workload} {delete : List Path} {before : Files} (e : StoreError) :
    MayFailToUpdate env w subDir create delete before (.error e) before := by
  unfold MayFailToUpdate
  cases w.kind with
  | git => exact .kept e
  | bucket => exact .stopped e 0

/-- Both writers can do without a fault what `updated` says. -/
theorem mayFailToUpdate_of_updated {env : Externals} {suffix : String} {w : Writer} {subDir : Path}
    {create : List Workload} {delete : List Path} {before files : Files}
    (hf : updated env (cloneDirectory suffix) w subDir create delete before = .ok files)
    (versionID : String) :
    MayFailToUpdate env w subDir create delete before (.ok versionID) files := by
  unfold updated at hf
  unfold MayFailToUpdate
  cases hkind : w.kind with
  | git =>
    rw [hkind] at hf
    refine .made _ (isPlain_cloneDirectory suffix) .all ?_ fun q => rfl
    rw [← GitWriter.update_eq]
    exact hf
  | bucket =>
    rw [hkind] at hf
    obtain rfl := Except.ok.inj hf
    exact .done versionID

theorem faulty_of_faultFree {env : Externals} (call : Call) (s : World) (r : call.Answer)
    (t : World) (h : faultFree env call s r t) : faulty env call s r t := by
  cases call with
  | api call =>
    obtain ⟨hr, ht⟩ := Prod.mk.inj h
    exact ⟨_, Or.inl ⟨hr, rfl⟩, ht⟩
  | connect ref =>
    obtain ⟨rfl, rfl⟩ := h
    exact ⟨fun e he => (by cases he), rfl⟩
  | updateFiles w subDir name create delete =>
    obtain ⟨suffix, h⟩ := h
    split at h
    · next e he =>
      refine ⟨s.files w.backend, ?_, by rw [h.2, withFiles_self]⟩
      rw [h.1]
      exact mayFailToUpdate_error e
    · next files hf =>
      obtain ⟨v, rfl, rfl⟩ := h
      exact ⟨files, mayFailToUpdate_of_updated hf v, rfl⟩
  | readFile w filePath => exact ⟨Or.inl h.1, h.2⟩
  | newUUID => exact h
  | randIntn n => exact h
  | now => exact h
  | mapOrder keys => exact h
  | cachedVersion id => exact h
  | cacheVersion id v => exact h
  | startController name can => exact h.2
  | disableController name => exact h
  | controllerFlag name flag => exact h

/-- The call was answered: a missing object or file is an answer, not a failure. -/
def Call.Answered : (call : Call) → call.Answer → Prop
  | .api (.get _ _ _), r => ∀ e, r = .error e → e = .notFound
  | .api (.list _ _ _), r => ∃ x, r = .ok x
  | .api (.create _ _), r => ∃ x, r = .ok x
  | .api (.update _ _), r => ∃ x, r = .ok x
  | .api (.updateStatus _ _), r => ∃ x, r = .ok x
  | .api (.patch _ _ _ _), r => ∃ x, r = .ok x
  | .api (.delete _ _ _), r => ∃ x, r = .ok x
  | .updateFiles _ _ _ _ _, r => ∃ versionID, r = .ok versionID
  | .readFile _ _, r => ∀ e, r = .error e → e = .fileNotFound
  | _, _ => True

/-- The outcomes in which no call fails: nothing goes wrong on the way, and
nothing is refused. -/
def unfailing (env : Externals) : Handler signature World :=
  fun call s r t => faultFree env call s r t ∧ call.Answered r

theorem faulty_of_unfailing {env : Externals} (call : Call) (s : World) (r : call.Answer)
    (t : World) (h : unfailing env call s r t) : faulty env call s r t :=
  faulty_of_faultFree call s r t h.1

/-- The outcomes in which no call fails, and lists come in any order. -/
def unordered (env : Externals) : Handler signature World
  | .api (.list k ns sel), s, r, t =>
    (∃ l, r = .ok l ∧ l.Perm (s.cluster.listed k ns sel)) ∧ t = s
  | call, s, r, t => unfailing env call s r t

theorem unordered_of_unfailing {env : Externals} (call : Call) (s : World) (r : call.Answer)
    (t : World) (h : unfailing env call s r t) : unordered env call s r t := by
  cases call with
  | api call =>
    cases call with
    | list k ns sel =>
      obtain ⟨hr, ht⟩ := Prod.mk.inj h.1
      exact ⟨⟨_, hr, List.Perm.refl _⟩, ht⟩
    | _ => exact h
  | _ => exact h

/-! ### What a call leaves alone -/

def Call.Writes (k : Kind) : Call → Prop
  | .api call => call.Writes k
  | _ => False

section

variable {env : Externals} {call : Call} {s t : World} {r : call.Answer} {k : Kind}

theorem faulty_cluster (h : faulty env call s r t) :
    t.cluster = s.cluster ∨ ∃ c, call = .api c ∧ t.cluster = (serve c s.cluster).2 := by
  cases call with
  | api c =>
    obtain ⟨c', hc, rfl⟩ := h
    rcases hc.cluster with rfl | rfl
    · exact Or.inl rfl
    · exact Or.inr ⟨c, rfl, rfl⟩
  | updateFiles w subDir name create delete =>
    obtain ⟨files, -, rfl⟩ := h
    exact Or.inl rfl
  | cacheVersion id v =>
    rw [show t = s.withVersion id v from h]
    exact Or.inl (by simp)
  | now => exact Or.inl (congrArg World.cluster h)
  | mapOrder keys => exact Or.inl (congrArg World.cluster h.2)
  | newUUID => exact Or.inl (congrArg World.cluster h.2)
  | randIntn n => exact Or.inl (congrArg World.cluster h.2)
  | connect ref => exact Or.inl (congrArg World.cluster h.2)
  | readFile w path => exact Or.inl (congrArg World.cluster h.2)
  | cachedVersion id => exact Or.inl (congrArg World.cluster h.2)
  | startController name can => exact Or.inl (congrArg World.cluster h)
  | disableController name => exact Or.inl (congrArg World.cluster h)
  | controllerFlag name flag => exact Or.inl (congrArg World.cluster h)

theorem faulty_objects (h : faulty env call s r t) (hw : ¬ call.Writes k) :
    t.cluster.objects k = s.cluster.objects k := by
  rcases faulty_cluster h with hc | ⟨c, rfl, hc⟩
  · rw [hc]
  · rw [hc]
    exact serve_of_not_writes hw _

theorem faulty_clock (h : faulty env call s r t) : s.cluster.clock ≤ t.cluster.clock := by
  rcases faulty_cluster h with hc | ⟨c, rfl, hc⟩
  · rw [hc]
  · rw [hc]
    exact serve_clock _ _

end

section

variable {env : Externals} {α : Type} {prog : Prog α} {s t : World} {a : α} {k : Kind}

/-- The program writes no object of this kind, whatever it is answered. -/
def Spares (k : Kind) (prog : Prog α) : Prop := prog.Calls fun c : Call => ¬ c.Writes k

/-- A program that writes no object of a kind leaves that kind alone. -/
theorem exec_objects (hp : Spares k prog) (he : Exec (faulty env) prog s a t) :
    t.cluster.objects k = s.cluster.objects k := by
  refine Exec.frame (R := fun s t : World => t.cluster.objects k = s.cluster.objects k)
    ?_ ?_ ?_ hp he
  · exact fun s => rfl
  · exact fun s t u h₁ h₂ => h₂.trans h₁
  · exact fun c s r t hw h => faulty_objects h hw

theorem exec_clock (he : Exec (faulty env) prog s a t) : s.cluster.clock ≤ t.cluster.clock := by
  refine Exec.frame (R := fun s t : World => s.cluster.clock ≤ t.cluster.clock) ?_ ?_ ?_
    (Program.Calls.trivial prog) he
  · exact fun s => le_rfl
  · exact fun s t u => le_trans
  · exact fun c s r t _ h => faulty_clock h

end

/-- A UUID for evaluations, different at different times. -/
def clockUUID (c : Cluster scheme) : String :=
  String.ofList (List.replicate 5 (Char.ofNat (97 + c.clock)))

/-- One fault-free outcome of each call, for evaluating programs. -/
def serveCall (env : Externals) : (call : Call) → World → Option (call.Answer × World)
  | .api call, s => some ((serve call s.cluster).1, s.withCluster (serve call s.cluster).2)
  | .newUUID, s =>
    if IsFresh s.cluster (clockUUID s.cluster) then some (clockUUID s.cluster, s) else none
  | .randIntn n, s => if 0 < n then some ((0 : ℕ), s) else none
  | .now, s => some ((0 : ℕ), s)
  | .mapOrder keys, s => some (keys, s)
  | .connect _, s => some (.ok (), s)
  | .updateFiles w subDir _ create delete, s =>
    match updated env (cloneDirectory "") w subDir create delete (s.files w.backend) with
    | .error e => some (.error e, s)
    | .ok files => some (.ok "", s.withFiles w.backend files)
  | .readFile w filePath, s => some (readFile w filePath (s.files w.backend), s)
  | .cachedVersion uniqueID, s => some (s.versionCache.lookup uniqueID, s)
  | .cacheVersion uniqueID versionID, s => some ((), s.withVersion uniqueID versionID)
  | .startController _ _, s => some (.ok (), s)
  | .disableController _, s => some ((), s)
  | .controllerFlag _ _, s => some (true, s)

theorem faultFree_of_serveCall {env : Externals} (call : Call) (s : World) (r : call.Answer)
    (t : World) (h : serveCall env call s = some (r, t)) : faultFree env call s r t := by
  cases call with
  | api call =>
    obtain ⟨rfl, rfl⟩ := Prod.mk.inj (Option.some.inj h)
    rfl
  | newUUID =>
    simp only [serveCall] at h
    split_ifs at h with hf
    obtain ⟨rfl, rfl⟩ := Prod.mk.inj (Option.some.inj h)
    exact ⟨hf, rfl⟩
  | randIntn n =>
    simp only [serveCall] at h
    split_ifs at h with hn
    obtain ⟨rfl, rfl⟩ := Prod.mk.inj (Option.some.inj h)
    exact ⟨hn, rfl⟩
  | updateFiles w subDir name create delete =>
    refine ⟨"", ?_⟩
    simp only [serveCall] at h
    split at h
    · next e he =>
      obtain ⟨rfl, rfl⟩ := Prod.mk.inj (Option.some.inj h)
      exact ⟨rfl, rfl⟩
    · next files hf =>
      obtain ⟨rfl, rfl⟩ := Prod.mk.inj (Option.some.inj h)
      exact ⟨"", rfl, rfl⟩
  | now =>
    obtain ⟨-, rfl⟩ := Prod.mk.inj (Option.some.inj h)
    rfl
  | mapOrder keys =>
    obtain ⟨rfl, rfl⟩ := Prod.mk.inj (Option.some.inj h)
    exact ⟨List.Perm.refl _, rfl⟩
  | connect ref =>
    obtain ⟨rfl, rfl⟩ := Prod.mk.inj (Option.some.inj h)
    exact ⟨rfl, rfl⟩
  | readFile w filePath =>
    obtain ⟨rfl, rfl⟩ := Prod.mk.inj (Option.some.inj h)
    exact ⟨rfl, rfl⟩
  | cachedVersion id =>
    obtain ⟨rfl, rfl⟩ := Prod.mk.inj (Option.some.inj h)
    exact ⟨rfl, rfl⟩
  | cacheVersion id v =>
    obtain ⟨-, rfl⟩ := Prod.mk.inj (Option.some.inj h)
    rfl
  | startController name can =>
    obtain ⟨rfl, rfl⟩ := Prod.mk.inj (Option.some.inj h)
    exact ⟨rfl, rfl⟩
  | disableController name =>
    obtain ⟨-, rfl⟩ := Prod.mk.inj (Option.some.inj h)
    rfl
  | controllerFlag name flag =>
    obtain ⟨-, rfl⟩ := Prod.mk.inj (Option.some.inj h)
    rfl

theorem faulty_of_serveCall {env : Externals} (call : Call) (s : World) (r : call.Answer)
    (t : World) (h : serveCall env call s = some (r, t)) : faulty env call s r t :=
  faulty_of_faultFree call s r t (faultFree_of_serveCall call s r t h)

/-- Decides `Answered`. -/
def Call.isAnswered : (call : Call) → call.Answer → Bool
  | .api (.get _ _ _), .error e => e == .notFound
  | .api (.list _ _ _), r => r.isOk
  | .api (.create _ _), r => r.isOk
  | .api (.update _ _), r => r.isOk
  | .api (.updateStatus _ _), r => r.isOk
  | .api (.patch _ _ _ _), r => r.isOk
  | .api (.delete _ _ _), r => r.isOk
  | .updateFiles _ _ _ _ _, r => r.isOk
  | .readFile _ _, .error e => e == .fileNotFound
  | _, _ => true

theorem exists_ok_of_isOk {ε α : Type} {r : Except ε α} (h : r.isOk = true) : ∃ x, r = .ok x := by
  cases r with
  | error e => cases h
  | ok x => exact ⟨x, rfl⟩

theorem Call.answered_of_isAnswered {call : Call} {r : call.Answer}
    (h : call.isAnswered r = true) : call.Answered r := by
  cases call with
  | api call =>
    cases call with
    | get k ns name =>
      rintro e rfl
      exact beq_iff_eq.mp h
    | _ => exact exists_ok_of_isOk h
  | updateFiles w subDir name create delete => exact exists_ok_of_isOk h
  | readFile w filePath =>
    rintro e rfl
    exact beq_iff_eq.mp h
  | _ => exact True.intro

/-- The outcome of `serveCall`, unless the call fails. -/
def serveAnswered (env : Externals) (call : Call) (s : World) : Option (call.Answer × World) :=
  (serveCall env call s).filter fun out => call.isAnswered out.1

theorem unfailing_of_serveAnswered {env : Externals} (call : Call) (s : World) (r : call.Answer)
    (t : World) (h : serveAnswered env call s = some (r, t)) : unfailing env call s r t := by
  obtain ⟨hserve, hanswered⟩ := Option.filter_eq_some_iff.mp h
  exact ⟨faultFree_of_serveCall call s r t hserve, Call.answered_of_isAnswered hanswered⟩

/-- The errors that the modelled functions return. -/
inductive Failure
  | api (e : ApiError)
  | store (e : StoreError)
  | file (e : FileError)
  | invalidSelector
  | noAPI
  | deletePipelineFailed
  /-- A nil pointer is followed. -/
  | panicked
  | message (text : String)
  deriving DecidableEq

/-! ### Calls as programs -/

section Programs

def listObjects (k : Kind) (ns : String) (sel : Selector) :
    Prog (Except ApiError (List (scheme.Obj k))) :=
  Program.perform (S := signature) (.api (.list k ns sel))

def getObject (k : Kind) (ns name : String) : Prog (Except ApiError (scheme.Obj k)) :=
  Program.perform (S := signature) (.api (.get k ns name))

def createObject (k : Kind) (o : scheme.Obj k) : Prog (Except ApiError (scheme.Obj k)) :=
  Program.perform (S := signature) (.api (.create k o))

def updateObject (k : Kind) (o : scheme.Obj k) : Prog (Except ApiError (scheme.Obj k)) :=
  Program.perform (S := signature) (.api (.update k o))

def updateStatus (k : Kind) (o : scheme.Obj k) : Prog (Except ApiError (scheme.Obj k)) :=
  Program.perform (S := signature) (.api (.updateStatus k o))

def patchObject (k : Kind) (ns name : String) (f : scheme.Spec k → scheme.Spec k) :
    Prog (Except ApiError (scheme.Obj k)) :=
  Program.perform (S := signature) (.api (.patch k ns name f))

def deleteObject (k : Kind) (ns name : String) : Prog (Except ApiError Unit) :=
  Program.perform (S := signature) (.api (.delete k ns name))

def newUUID : Prog String := Program.perform (S := signature) .newUUID

def timeNow : Prog ℕ := Program.perform (S := signature) .now

def randIntn (n : ℕ) : Prog ℕ := Program.perform (S := signature) (.randIntn n)

def mapOrder (keys : List String) : Prog (List String) :=
  Program.perform (S := signature) (.mapOrder keys)

def connect (ref : StateStoreRef) : Prog (Except ApiError Unit) :=
  Program.perform (S := signature) (.connect ref)

def updateFiles (w : Writer) (subDir : Path) (workPlacementName : String)
    (workloadsToCreate : List Workload) (workloadsToDelete : List Path) :
    Prog (Except StoreError String) :=
  Program.perform (S := signature)
    (.updateFiles w subDir workPlacementName workloadsToCreate workloadsToDelete)

def readStoredFile (w : Writer) (filePath : Path) : Prog (Except StoreError Bytes) :=
  Program.perform (S := signature) (.readFile w filePath)

def cachedVersion (uniqueID : String) : Prog (Option String) :=
  Program.perform (S := signature) (.cachedVersion uniqueID)

def cacheVersion (uniqueID : String) (versionID : Option String) : Prog Unit :=
  Program.perform (S := signature) (.cacheVersion uniqueID versionID)

end Programs

/-! ### Programs that spare a kind -/

section Spares

variable {k k' : Kind} {α β : Type}

theorem spares_createObject (h : k' ≠ k) (o : scheme.Obj k') : Spares k (createObject k' o) :=
  calls_perform.mpr h

theorem spares_updateObject (h : k' ≠ k) (o : scheme.Obj k') : Spares k (updateObject k' o) :=
  calls_perform.mpr h

theorem spares_updateStatus (h : k' ≠ k) (o : scheme.Obj k') : Spares k (updateStatus k' o) :=
  calls_perform.mpr h

theorem spares_deleteObject (h : k' ≠ k) (ns name : String) : Spares k (deleteObject k' ns name) :=
  calls_perform.mpr h

end Spares

end Kratix
