import Kratix.Lib.Writes
import Kratix.World

/-!
# Executing single calls

For each program that makes one call, what its possible answers say about the
cluster before and what it leaves behind, with faults and without.
-/

namespace Kratix

open Apiserver Effect GoPath

variable {env : Externals} {s t : World} {k : Kind}

/-! ### With faults -/

theorem exec_listObjects {ns : String} {sel : Selector}
    {r : Except ApiError (List (scheme.Obj k))}
    (he : Exec (faulty env) (listObjects k ns sel) s r t) :
    t = s ∧ ∀ l, r = .ok l → l = s.cluster.listed k ns sel := by
  obtain ⟨c, hc, rfl⟩ := exec_perform.mp he
  have hcl : c = s.cluster := by
    rcases hc.cluster with rfl | rfl <;> rfl
  subst hcl
  refine ⟨rfl, ?_⟩
  rintro l rfl
  have h := congrArg Prod.fst hc.ok
  exact (Except.ok.inj h).symm

theorem exec_getObject {ns name : String} {r : Except ApiError (scheme.Obj k)}
    (he : Exec (faulty env) (getObject k ns name) s r t) :
    t = s ∧ (∀ o, r = .ok o → s.cluster.find k (ns, name) = some o) ∧
      (r = .error .notFound → s.cluster.find k (ns, name) = none) := by
  obtain ⟨c, hc, rfl⟩ := exec_perform.mp he
  obtain ⟨hsame, hok, hmissing⟩ := serve_get (S := scheme) k ns name s.cluster
  have hcl : c = s.cluster := by
    rcases hc.cluster with rfl | rfl
    · rfl
    · exact hsame
  subst hcl
  refine ⟨rfl, ?_, ?_⟩
  · rintro o rfl
    exact (hok o).mp (congrArg Prod.fst hc.ok)
  · rintro rfl
    exact hmissing.mp (congrArg Prod.fst hc.of_notFound)

theorem exec_createObject {o : scheme.Obj k} {r : Except ApiError (scheme.Obj k)}
    (he : Exec (faulty env) (createObject k o) s r t) :
    (t = s ∧ ∀ x, r ≠ .ok x) ∨
      ∃ c, Adds k o s.cluster c ∧ t = s.withCluster c ∧ ∀ x, r = .ok x → x = s.cluster.stamp o := by
  obtain ⟨c, hc, rfl⟩ := exec_perform.mp he
  rcases serve_create_cases (S := scheme) o s.cluster with ⟨e, hs⟩ | ⟨hr, hadd⟩
  · obtain ⟨rfl, hno⟩ := hc.of_refused hs
    exact Or.inl ⟨rfl, hno⟩
  · rcases hc.of_served hr with ⟨rfl, hno⟩ | ⟨rfl, hyes⟩
    · exact Or.inl ⟨rfl, hno⟩
    · exact Or.inr ⟨_, hadd, rfl, hyes⟩

/-- What an update leaves: nothing happened, or the stored object took the written fields. -/
theorem exec_updateObject {o : scheme.Obj k} {r : Except ApiError (scheme.Obj k)}
    (he : Exec (faulty env) (updateObject k o) s r t) :
    (t = s ∧ ∀ x, r ≠ .ok x) ∨
      ∃ stored c, s.cluster.find k o.key = some stored ∧
        Replaces k stored ((stored.accept o).settle) s.cluster c ∧ t = s.withCluster c ∧
        o.metadata.labels.Valid ∧
        (stored.metadata.deleting = true → ∀ f ∈ o.metadata.finalizers,
          f ∈ stored.metadata.finalizers) ∧
        ∀ x, r = .ok x → x = stored.accept o := by
  obtain ⟨c, hc, rfl⟩ := exec_perform.mp he
  cases hfind : s.cluster.find k o.key with
  | none =>
    obtain ⟨rfl, hno⟩ := hc.of_refused ((serve_of_missing hfind).1 o rfl)
    exact Or.inl ⟨rfl, hno⟩
  | some stored =>
    rcases serve_update hfind with hs | ⟨hr, hrep, hv, hfin⟩
    · obtain ⟨rfl, hno⟩ := hc.of_refused hs
      exact Or.inl ⟨rfl, hno⟩
    · rcases hc.of_served hr with ⟨rfl, hno⟩ | ⟨rfl, hyes⟩
      · exact Or.inl ⟨rfl, hno⟩
      · exact Or.inr ⟨stored, _, rfl, hrep, rfl, hv, hfin, hyes⟩

theorem exec_updateStatus {o : scheme.Obj k} {r : Except ApiError (scheme.Obj k)}
    (he : Exec (faulty env) (updateStatus k o) s r t) :
    (t = s ∧ ∀ x, r ≠ .ok x) ∨
      ∃ stored c, s.cluster.find k o.key = some stored ∧
        Replaces k stored (some { stored with status := o.status }) s.cluster c ∧
        t = s.withCluster c ∧ ∀ x, r = .ok x → x = { stored with status := o.status } := by
  obtain ⟨c, hc, rfl⟩ := exec_perform.mp he
  cases hfind : s.cluster.find k o.key with
  | none =>
    obtain ⟨rfl, hno⟩ := hc.of_refused ((serve_of_missing hfind).2.1 o rfl)
    exact Or.inl ⟨rfl, hno⟩
  | some stored =>
    obtain ⟨hr, hrep⟩ := serve_updateStatus hfind
    rcases hc.of_served hr with ⟨rfl, hno⟩ | ⟨rfl, hyes⟩
    · exact Or.inl ⟨rfl, hno⟩
    · exact Or.inr ⟨stored, _, rfl, hrep, rfl, hyes⟩

theorem exec_deleteObject {ns name : String} {r : Except ApiError Unit}
    (he : Exec (faulty env) (deleteObject k ns name) s r t) :
    (t = s ∧ (∀ x, r ≠ .ok x) ∧
        (r = .error .notFound → s.cluster.find k (ns, name) = none)) ∨
      ∃ stored c, s.cluster.find k (ns, name) = some stored ∧
        Replaces k stored stored.markDeleting.settle s.cluster c ∧ t = s.withCluster c ∧
        r ≠ .error .notFound := by
  obtain ⟨c, hc, rfl⟩ := exec_perform.mp he
  cases hfind : s.cluster.find k (ns, name) with
  | none =>
    obtain ⟨rfl, hno⟩ := hc.of_refused (serve_of_missing hfind).2.2
    exact Or.inl ⟨rfl, hno, fun _ => rfl⟩
  | some stored =>
    obtain ⟨hr, hrep⟩ := serve_delete_stored hfind
    have hfound : r ≠ .error .notFound := by
      rintro rfl
      rw [hc.of_notFound] at hr
      cases hr
    rcases hc.of_served hr with ⟨rfl, hno⟩ | ⟨rfl, -⟩
    · exact Or.inl ⟨rfl, hno, fun h => absurd h hfound⟩
    · exact Or.inr ⟨stored, _, rfl, hrep, rfl, hfound⟩

/-! ### Without faults -/

theorem exec_api {call : ApiCall scheme} {r : Except ApiError call.Result}
    (he : Exec (faultFree env) (Program.perform (S := signature) (.api call)) s r t) :
    r = (serve call s.cluster).1 ∧ t = s.withCluster (serve call s.cluster).2 :=
  Prod.mk.inj (exec_perform.mp he)

/-! ### When no call fails -/

theorem exec_listObjects_unfailing {ns : String} {sel : Selector}
    {r : Except ApiError (List (scheme.Obj k))}
    (he : Exec (unfailing env) (listObjects k ns sel) s r t) :
    t = s ∧ r = .ok (s.cluster.listed k ns sel) := by
  obtain ⟨hfree, l, rfl⟩ := exec_perform.mp he
  obtain ⟨rfl, hl⟩ := exec_listObjects (he.mono faulty_of_unfailing)
  exact ⟨rfl, by rw [hl l rfl]⟩

theorem exec_getObject_unfailing {ns name : String} {r : Except ApiError (scheme.Obj k)}
    (he : Exec (unfailing env) (getObject k ns name) s r t) :
    t = s ∧ (r = .error .notFound ∧ s.cluster.find k (ns, name) = none ∨
      ∃ o, r = .ok o ∧ s.cluster.find k (ns, name) = some o) := by
  obtain ⟨-, hanswer⟩ := exec_perform.mp he
  obtain ⟨rfl, hok, hmissing⟩ := exec_getObject (he.mono faulty_of_unfailing)
  refine ⟨rfl, ?_⟩
  cases r with
  | error e =>
    obtain rfl : e = .notFound := hanswer e rfl
    exact Or.inl ⟨rfl, hmissing rfl⟩
  | ok o => exact Or.inr ⟨o, rfl, hok o rfl⟩

theorem answers_listObjects (env : Externals) (k : Kind) (ns : String) (sel : Selector) (s : World) :
    Exec (unfailing env) (listObjects k ns sel) s (.ok (s.cluster.listed k ns sel)) s :=
  exec_perform.mpr ⟨rfl, _, rfl⟩

theorem answers_getObject (env : Externals) {ns name : String} {o : scheme.Obj k}
    (hf : s.cluster.find k (ns, name) = some o) :
    Exec (unfailing env) (getObject k ns name) s (.ok o) s := by
  refine exec_perform.mpr ⟨?_, fun e he => by cases he⟩
  simp only [faultFree, serve, hf]
  rfl

theorem answers_getObject_missing (env : Externals) {ns name : String}
    (hf : s.cluster.find k (ns, name) = none) :
    Exec (unfailing env) (getObject k ns name) s (.error .notFound) s := by
  refine exec_perform.mpr ⟨?_, fun e he => by cases he; rfl⟩
  simp only [faultFree, serve, hf]
  rfl

theorem answers_createObject (env : Externals) {o : scheme.Obj k}
    (hf : s.cluster.find k o.key = none) (hv : o.metadata.labels.Valid) (hns : o.metadata.ns ≠ "") :
    ∃ t, Exec (unfailing env) (createObject k o) s (.ok (s.cluster.stamp o)) t := by
  refine ⟨s.withCluster (s.cluster.add k o hv (s.cluster.find_eq_none.mp hf)),
    exec_perform.mpr ⟨?_, _, rfl⟩⟩
  simp only [faultFree, serve]
  rw [if_neg (by simp [hns]), dif_pos (s.cluster.find_eq_none.mp hf), dif_pos hv]

theorem answers_updateObject (env : Externals) {o stored : scheme.Obj k}
    (hf : s.cluster.find k o.key = some stored) (hv : o.metadata.labels.Valid) (hdel : stored.metadata.deleting = false) :
    ∃ t, Exec (unfailing env) (updateObject k o) s (.ok (stored.accept o)) t := by
  refine ⟨s.withCluster (serve (.update k o) s.cluster).2, exec_perform.mpr ⟨?_, _, rfl⟩⟩
  simp only [faultFree, serve, hf]
  rw [if_neg (by simp [hdel]), dif_pos hv]

theorem answers_updateStatus (env : Externals) {o stored : scheme.Obj k}
    (hf : s.cluster.find k o.key = some stored) :
    ∃ t, Exec (unfailing env) (updateStatus k o) s (.ok { stored with status := o.status }) t := by
  refine ⟨s.withCluster (serve (.updateStatus k o) s.cluster).2, exec_perform.mpr ⟨?_, _, rfl⟩⟩
  simp only [faultFree, serve, hf]

theorem answers_deleteObject (env : Externals) {ns name : String} {stored : scheme.Obj k}
    (hf : s.cluster.find k (ns, name) = some stored) :
    ∃ t, Exec (unfailing env) (deleteObject k ns name) s (.ok ()) t := by
  refine ⟨s.withCluster (serve (.delete k ns name) s.cluster).2, exec_perform.mpr ⟨?_, _, rfl⟩⟩
  simp only [faultFree, serve, hf]

theorem exec_createObject_unfailing {o : scheme.Obj k} {r : Except ApiError (scheme.Obj k)}
    (he : Exec (unfailing env) (createObject k o) s r t) : ∃ x, r = .ok x :=
  (exec_perform.mp he).2

theorem exec_updateObject_unfailing {o : scheme.Obj k} {r : Except ApiError (scheme.Obj k)}
    (he : Exec (unfailing env) (updateObject k o) s r t) : ∃ x, r = .ok x :=
  (exec_perform.mp he).2

theorem exec_updateObject_stored {o stored : scheme.Obj k} {r : Except ApiError (scheme.Obj k)}
    (hf : s.cluster.find k o.key = some stored)
    (he : Exec (unfailing env) (updateObject k o) s r t) : r = .ok (stored.accept o) ∧
      ∃ c, Replaces k stored (stored.accept o).settle s.cluster c ∧ t = s.withCluster c := by
  obtain ⟨x, rfl⟩ := exec_updateObject_unfailing he
  rcases exec_updateObject (he.mono faulty_of_unfailing) with ⟨-, hno⟩ |
    ⟨stored', c, hf', hrep, rfl, -, -, hyes⟩
  · exact absurd rfl (hno x)
  · obtain rfl : stored' = stored := Option.some.inj (hf'.symm.trans hf)
    exact ⟨by rw [hyes x rfl], c, hrep, rfl⟩

theorem exec_updateStatus_unfailing {o : scheme.Obj k} {r : Except ApiError (scheme.Obj k)}
    (he : Exec (unfailing env) (updateStatus k o) s r t) : ∃ x, r = .ok x :=
  (exec_perform.mp he).2

theorem exec_updateStatus_stored {o stored : scheme.Obj k} {r : Except ApiError (scheme.Obj k)}
    (hf : s.cluster.find k o.key = some stored)
    (he : Exec (unfailing env) (updateStatus k o) s r t) :
    r = .ok { stored with status := o.status } ∧
      ∃ c, Replaces k stored (some { stored with status := o.status }) s.cluster c ∧
        t = s.withCluster c := by
  obtain ⟨x, rfl⟩ := exec_updateStatus_unfailing he
  rcases exec_updateStatus (he.mono faulty_of_unfailing) with ⟨-, hno⟩ |
    ⟨stored', c, hf', hrep, rfl, hyes⟩
  · exact absurd rfl (hno x)
  · obtain rfl : stored' = stored := Option.some.inj (hf'.symm.trans hf)
    exact ⟨by rw [hyes x rfl], c, hrep, rfl⟩

theorem exec_deleteObject_unfailing {ns name : String} {r : Except ApiError Unit}
    (he : Exec (unfailing env) (deleteObject k ns name) s r t) : ∃ x, r = .ok x :=
  (exec_perform.mp he).2

theorem exec_readStoredFile_unfailing {w : Writer} {filePath : Path} {r : Except StoreError Bytes}
    (he : Exec (unfailing env) (readStoredFile w filePath) s r t) :
    t = s ∧ r = readFile w filePath (s.files w.backend) ∧
      ∀ e, r = .error e → e = .fileNotFound := by
  obtain ⟨⟨hr, rfl⟩, hanswer⟩ := exec_perform.mp he
  exact ⟨rfl, hr, hanswer⟩

theorem exec_updateFiles_unfailing {w : Writer} {subDir : Path} {name : String}
    {create : List Workload} {delete : List Path} {r : Except StoreError String}
    (he : Exec (unfailing env) (updateFiles w subDir name create delete) s r t) :
    ∃ versionID suffix files, r = .ok versionID ∧
      updated env (cloneDirectory suffix) w subDir create delete (s.files w.backend) = .ok files ∧
      t = s.withFiles w.backend files := by
  obtain ⟨⟨suffix, h⟩, versionID, rfl⟩ := exec_perform.mp he
  cases hup : updated env (cloneDirectory suffix) w subDir create delete (s.files w.backend) with
  | error e =>
    rw [hup] at h
    cases h.1
  | ok files =>
    rw [hup] at h
    obtain ⟨-, -, ht⟩ := h
    exact ⟨versionID, suffix, files, rfl, hup, ht⟩

/-! ### When lists come in any order -/

theorem exec_listObjects_unordered {ns : String} {sel : Selector}
    {r : Except ApiError (List (scheme.Obj k))}
    (he : Exec (unordered env) (listObjects k ns sel) s r t) :
    t = s ∧ ∃ l, r = .ok l ∧ l.Perm (s.cluster.listed k ns sel) :=
  (exec_perform.mp he).symm

/-- Every call but a list is answered as before. -/
theorem exec_unordered {call : Call} {r : call.Answer}
    (hcall : ∀ k ns sel, call ≠ .api (.list k ns sel))
    (he : Exec (unordered env) (Program.perform (S := signature) call) s r t) :
    Exec (unfailing env) (Program.perform (S := signature) call) s r t := by
  refine exec_perform.mpr ?_
  have h := exec_perform.mp he
  cases call with
  | api call =>
    cases call with
    | list k ns sel => exact absurd rfl (hcall k ns sel)
    | _ => exact h
  | _ => exact h

end Kratix
