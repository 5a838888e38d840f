import Kratix.Writers.Pushes

/-!
# The S3 writer, call by call

Every call to the bucket may fail, and a write or a deletion that failed may have
taken effect. An update still ends in one of the outcomes of `Kratix.Writers`.
-/

namespace Kratix.S3Writer

open Effect GoPath

inductive S3Call
  | listObjects (keyPrefix : Path)
  | statObject (key : Path)
  | putObject (key : Path) (content : Bytes)
  | removeObject (key : Path)

/-- The answer to a call that does not fail: keys, an ETag, a version. -/
abbrev S3Call.Answer : S3Call → Type
  | listObjects _ => List Path
  | statObject _ | putObject _ _ => String
  | removeObject _ => Unit

abbrev s3Signature : Signature := ⟨S3Call, fun c => Except StoreError c.Answer⟩

abbrev S3Prog := ExceptT StoreError (Program s3Signature)

def request (c : S3Call) : S3Prog c.Answer := Program.perform (S := s3Signature) c

/- The digests of contents and of versions, and the order in which a map is iterated. -/
variable (etag : Bytes → String) (sha256 : String → String) (order : List Path → List Path)

/-- The ETag of the object, if there is one. -/
def stat (key : Path) : S3Prog (Option String) := ExceptT.mk do
  match ← (request (.statObject key)).run with
  | .error .fileNotFound => return .ok none
  | .error e => return .error e
  | .ok tag => return .ok (some tag)

/-- The listed files that are in the bucket, added to those found so far. -/
def existingObjects (b : Writer) : List Path → List Path → S3Prog (List Path)
  | [], found => return found
  | work :: rest, found => do
    let objStat ← stat (join [b.path, work])
    existingObjects b rest
      (if objStat.isSome then found.insert (join [b.path, work]) else found)

def listObjectsToDelete (b : Writer) (subDir : Path) (workloadsToDelete : List Path) :
    S3Prog (List Path) :=
  if !subDir.isEmpty then request (.listObjects (listPrefix b subDir))
  else existingObjects b workloadsToDelete []

/-- Writes the workload unless the object has its digest already. -/
def writeObject (b : Writer) (subDir : Path) (work : Workload) (versionID : String) :
    S3Prog String := do
  let objectFullPath := join [b.path, subDir, work.filepath]
  let objStat ← stat objectFullPath
  if objStat = some (etag work.content) then return versionID
  else
    let uploaded ← request (.putObject objectFullPath work.content)
    return sha256 (versionID ++ uploaded)

/-- Writes the workloads and takes them off the list of objects to delete. -/
def writeObjects (b : Writer) (subDir : Path) :
    List Workload → List Path → String → S3Prog (String × List Path)
  | [], objects, versionID => return (versionID, objects)
  | work :: rest, objects, versionID => do
    let version ← writeObject etag sha256 b subDir work versionID
    writeObjects b subDir rest
      (objects.filter fun q => q != join [b.path, subDir, work.filepath]) version

/-- A deletion that fails is counted, and the next one is tried. -/
def deleteObjects : List Path → ℕ → S3Prog Unit
  | [], errCount => if errCount ≠ 0 then throw (.undeleted errCount) else return ()
  | key :: rest, errCount => ExceptT.mk do
    match ← (request (.removeObject key)).run with
    | .error _ => deleteObjects rest (errCount + 1)
    | .ok () => deleteObjects rest errCount

def updateFiles (b : Writer) (subDir : Path) (workloadsToCreate : List Workload)
    (workloadsToDelete : List Path) : S3Prog String := do
  let listed ← listObjectsToDelete b subDir workloadsToDelete
  let written ← writeObjects etag sha256 b subDir workloadsToCreate listed ""
  deleteObjects (order written.2) 0
  return written.1

/-- Every outcome of a call, faults included. -/
def handle : Handler s3Signature Files
  | .listObjects keyPrefix, s, r, t => t = s ∧ ∀ keys, r = .ok keys →
      ∀ q, q ∈ keys ↔ (s.lookup q).isSome = true ∧ textPrefix keyPrefix q = true
  | .statObject key, s, r, t => t = s ∧ (∀ tag, r = .ok tag → (s.lookup key).map etag = some tag) ∧
      (r = .error .fileNotFound → s.lookup key = none)
  | .putObject key content, s, r, t => t = s.insert key content ∨ t = s ∧ ∃ e, r = .error e
  | .removeObject key, s, r, t => t = s.restrict (fun q => q != key) ∨ t = s ∧ ∃ e, r = .error e

variable {etag sha256 order} {b : Writer} {subDir : Path} {create : List Workload}
  {delete : List Path} {s t : Files}

theorem exec_stat {key : Path} {r : Except StoreError (Option String)}
    (he : Exec (handle etag) (stat key).run s r t) :
    t = s ∧ ∀ tag, r = .ok tag → tag = (s.lookup key).map etag := by
  obtain ⟨a, u, hstat, he⟩ := exec_bind.mp he
  obtain ⟨rfl, hfound, hmissing⟩ := exec_perform.mp hstat
  rcases a with (_ | _ | _ | _) | tag
  all_goals
    obtain ⟨rfl, rfl⟩ := he
    simp_all

theorem exec_existingObjects {listed found : List Path} {r : Except StoreError (List Path)}
    (he : Exec (handle etag) (existingObjects b listed found).run s r t) :
    t = s ∧ ∀ keys, r = .ok keys → ∀ q, q ∈ keys ↔ q ∈ found ∨
      (s.lookup q).isSome = true ∧ ∃ work ∈ listed, join [b.path, work] = q := by
  induction listed generalizing found with
  | nil =>
    obtain ⟨rfl, rfl⟩ := he
    simp
  | cons work rest ih =>
    rcases he.of_run_bind with ⟨e, rfl, hstat⟩ | ⟨tag, u, hstat, hrest⟩
    · simp [exec_stat hstat]
    · obtain ⟨rfl, htag⟩ := exec_stat hstat
      obtain ⟨rfl, hkeys⟩ := ih hrest
      grind

theorem exec_listObjectsToDelete {r : Except StoreError (List Path)}
    (he : Exec (handle etag) (listObjectsToDelete b subDir delete).run s r t) :
    t = s ∧ ∀ keys, r = .ok keys → ∀ q, q ∈ keys ↔
      (s.lookup q).isSome = true ∧ objectsToDelete b subDir delete q = true := by
  unfold listObjectsToDelete at he
  unfold objectsToDelete
  split at he
  · next hdir => simpa [hdir, handle] using exec_perform.mp he
  · next hdir => simpa [hdir] using exec_existingObjects he

theorem exec_writeObject {work : Workload} {versionID : String} {r : Except StoreError String}
    (he : Exec (handle etag) (writeObject etag sha256 b subDir work versionID).run s r t) :
    t = putFile etag b subDir s work ∨ t = s ∧ ∃ e, r = .error e := by
  rcases he.of_run_bind with ⟨e, rfl, hstat⟩ | ⟨tag, u, hstat, hrest⟩
  · simp [exec_stat hstat]
  · obtain ⟨rfl, htag⟩ := exec_stat hstat
    split at hrest
    · obtain ⟨rfl, rfl⟩ := hrest
      grind [putFile, isUnchanged]
    · rcases hrest.of_run_bind with ⟨e, rfl, hput⟩ | ⟨uploaded, v, hput, rfl, rfl⟩
      all_goals
        have hv := exec_perform.mp hput
        grind [putFile, isUnchanged, handle]

/-- The workloads are written in their order, up to the first call that fails. -/
theorem exec_writeObjects {objects : List Path} {versionID : String}
    {r : Except StoreError (String × List Path)}
    (he : Exec (handle etag) (writeObjects etag sha256 b subDir create objects versionID).run
      s r t) : ∃ n, t = (create.take n).foldl (putFile etag b subDir) s ∧ ∀ out, r = .ok out →
      t = create.foldl (putFile etag b subDir) s ∧ ∀ q, q ∈ out.2 ↔
        q ∈ objects ∧ ∀ work ∈ create, join [b.path, subDir, work.filepath] ≠ q := by
  induction create generalizing s objects versionID with
  | nil =>
    obtain ⟨rfl, rfl⟩ := he
    simp
  | cons work rest ih =>
    rcases he.of_run_bind with ⟨e, rfl, hwrite⟩ | ⟨version, u, hwrite, he⟩
    · rcases exec_writeObject hwrite with rfl | ⟨rfl, -⟩
      · use 1
        simp
      · use 0
        simp
    · obtain rfl : u = putFile etag b subDir s work := by simpa using exec_writeObject hwrite
      obtain ⟨n, ht, hout⟩ := ih he
      use n + 1, ht
      intro out hr
      simp [hout out hr, and_assoc, ne_comm]

theorem exec_deleteObjects {keys : List Path} {errCount : ℕ} {r : Except StoreError Unit}
    (he : Exec (handle etag) (deleteObjects keys errCount).run s r t) :
    ∃ removed, removed.Sublist keys ∧ t = s.restrict (fun q => !removed.contains q) ∧
      (r = .ok () → errCount = 0 ∧ removed = keys) := by
  induction keys generalizing s errCount with
  | nil =>
    use []
    unfold deleteObjects at he
    split at he
    all_goals
      obtain ⟨rfl, rfl⟩ := he
      simp_all [FileMap.restrict]
  | cons key rest ih =>
    obtain ⟨a, u, hremove, he⟩ := exec_bind.mp he
    have hu : u = s.restrict (fun q => q != key) ∨ u = s ∧ ∃ e, a = .error e :=
      exec_perform.mp hremove
    cases a with
    | error e | ok done =>
      obtain ⟨removed, hsub, rfl, hok⟩ := ih he
      rcases hu with rfl | ⟨rfl, e, he⟩
      · use key :: removed
        simp_all [FileMap.restrict, bne, beq_eq_decide, Bool.and_comm]
      · use removed
        simp_all

theorem lookup_foldl_putFile {q : Path}
    (hq : ∀ work ∈ create, join [b.path, subDir, work.filepath] ≠ q) :
    (create.foldl (putFile etag b subDir) s).lookup q = s.lookup q := by
  induction create generalizing s with
  | nil => rfl
  | cons work rest ih =>
    simp only [List.forall_mem_cons] at hq
    rw [List.foldl_cons, ih hq.2]
    grind [putFile, AList.lookup_insert_ne]

/-- The deletions that were all made are those of `update`. -/
theorem restrict_eq_update {keys : List Path} (hkeys : ∀ q, q ∈ keys ↔
    ((s.lookup q).isSome = true ∧ objectsToDelete b subDir delete q = true) ∧
      ∀ work ∈ create, join [b.path, subDir, work.filepath] ≠ q) :
    (create.foldl (putFile etag b subDir) s).restrict (fun q => !keys.contains q) =
      update etag b subDir create delete s := by
  apply AList.ext
  apply List.filter_congr
  intro e hentry
  have hlookup : (create.foldl (putFile etag b subDir) s).lookup e.1 = some e.2 :=
    AList.mem_lookup_iff.mpr hentry
  have hkept := @lookup_foldl_putFile etag b subDir create s e.1
  grind

variable (sha256) in
/-- Whatever the bucket answers, an update call by call ends in an outcome of the
update as a whole. -/
theorem updateFiles_refines_outcome {r : Except StoreError String}
    (horder : ∀ keys, (order keys).Perm keys)
    (he : Exec (handle etag) (updateFiles etag sha256 order b subDir create delete).run s r t) :
    Outcome etag b subDir create delete s r t := by
  rcases he.of_run_bind with ⟨e, rfl, hlist⟩ | ⟨listed, u, hlist, he₁⟩
  · rw [(exec_listObjectsToDelete hlist).1]
    exact .stopped e 0
  obtain ⟨rfl, hlisted⟩ := exec_listObjectsToDelete hlist
  rcases he₁.of_run_bind with ⟨e, rfl, hwrite⟩ | ⟨written, v, hwrite, he₂⟩
  · obtain ⟨n, rfl, -⟩ := exec_writeObjects hwrite
    exact .stopped e n
  obtain ⟨-, -, hout⟩ := exec_writeObjects hwrite
  obtain ⟨rfl, hobjects⟩ := hout written rfl
  have hkeys (q : Path) := (horder written.2).mem_iff.trans (hobjects q)
  simp only [hlisted listed rfl] at hkeys
  rcases he₂.of_run_bind with ⟨e, rfl, hdelete⟩ | ⟨done, x, hdelete, rfl, rfl⟩
  · obtain ⟨removed, hsub, rfl, -⟩ := exec_deleteObjects hdelete
    apply Outcome.undeleted
    intro q hq
    grind [hsub.subset hq]
  · obtain ⟨removed, -, rfl, hall⟩ := exec_deleteObjects hdelete
    rw [(hall rfl).2, restrict_eq_update hkeys]
    exact .done written.1

theorem updateFiles_refines_outcome_put :
    Outcome (fun _ => "") ⟨.bucket, "bucket", ["dest"]⟩ ["dir"] [⟨["a"], [1]⟩] [] ∅ (.ok "v1")
      ((∅ : Files).insert ["dest", "dir", "a"] [1]) := by
  apply updateFiles_refines_outcome id fun _ => .refl _
  exact ⟨.ok [], ∅, ⟨rfl, by simp⟩, .error .fileNotFound, ∅, ⟨rfl, by simp⟩, .ok "v1", _,
    Or.inl rfl, rfl, rfl⟩

/-! ### The same update of a repository -/

open GitWriter (Update gitRoot insertWorkload replaceApp)

theorem lookup_putFile (hetag : Function.Injective etag) (w : Workload) (q : Path) :
    (putFile etag b subDir s w).lookup q =
      (s.insert (join [b.path, subDir, w.filepath]) w.content).lookup q := by
  unfold putFile isUnchanged
  have hinj := @hetag
  by_cases hq : q = join [b.path, subDir, w.filepath]
  · grind [AList.lookup_insert]
  · grind [AList.lookup_insert_ne]

/-- Workloads are written to the same paths, whatever was there before. -/
theorem lookup_foldl_insertWorkload (s : Files) (hetag : Function.Injective etag) {q : Path}
    (hq : t.lookup q = s.lookup q ∨ ∃ w ∈ create, join [b.path, subDir, w.filepath] = q) :
    (create.foldl (insertWorkload (b.path ++ subDir)) t).lookup q =
      (create.foldl (putFile etag b subDir) s).lookup q := by
  induction create generalizing s t with
  | nil => simpa using hq
  | cons w rest ih =>
    have hkey : join [b.path ++ subDir, w.filepath] = join [b.path, subDir, w.filepath] := by
      simp [join]
    apply ih
    rw [lookup_putFile hetag, insertWorkload, hkey]
    by_cases hw : q = join [b.path, subDir, w.filepath]
    · subst hw
      simp
    · simp_all [Ne.symm hw]

/-- With a sub-directory the writers leave the same files exactly if no file beside the
directory has a path that starts with its text. -/
theorem writers_agree_iff {u : Update} (hetag : Function.Injective etag) (hsub : u.subDir ≠ [])
    (hdir : ∀ part ∈ b.path ++ u.subDir, isPlain part = true)
    (hcreate : ∀ w ∈ u.workloadsToCreate, ∀ part ∈ w.filepath, isPlain part = true) :
    (∀ q, (u.transform b s).lookup q =
      (update etag b u.subDir u.workloadsToCreate u.workloadsToDelete s).lookup q) ↔
    ∀ q ∈ s, textPrefix (b.path ++ u.subDir) q = true → b.path ++ u.subDir <+: q := by
  have hclean : join [b.path, u.subDir] = b.path ++ u.subDir := by
    simp [join, clean_plain hdir]
  have hlist : listPrefix b u.subDir = b.path ++ u.subDir := by
    simp [listPrefix, hclean, hsub]
  have hkey (w) (hw : w ∈ u.workloadsToCreate) :
      b.path ++ u.subDir <+: join [b.path, u.subDir, w.filepath] := by
    use w.filepath
    rw [join, clean_plain]
    · simp
    · grind
  apply forall_congr'
  intro q
  have htext : b.path ++ u.subDir <+: q → textPrefix (b.path ++ u.subDir) q = true := by
    rintro ⟨rest, rfl⟩
    exact textPrefix_append _ rest
  simp only [Update.transform, Update.dirInGitRepo, GitWriter.deleteExistingFiles,
    Update.removesDirectory, update, objectsToDelete, hlist, hclean, FileMap.lookup_restrict]
  by_cases hq : ∃ w ∈ u.workloadsToCreate, join [b.path, u.subDir, w.filepath] = q
  · rw [lookup_foldl_insertWorkload s hetag (Or.inr hq)]
    grind
  · rw [lookup_foldl_insertWorkload _ hetag (Or.inl rfl), lookup_foldl_putFile,
      lookup_foldl_putFile, FileMap.lookup_restrict]
    · grind [AList.lookup_eq_none, List.isPrefixOf_iff_prefix]
    all_goals grind

theorem writers_agree_iff_sibling : ¬ ∀ q,
    (replaceApp.transform gitRoot ((∅ : Files).insert ["app2"] [])).lookup q =
      (update (fun content => String.ofList (content.map Char.ofUInt8)) gitRoot ["app"]
        [⟨["new"], []⟩] [] ((∅ : Files).insert ["app2"] [])).lookup q := by
  refine mt (writers_agree_iff (u := replaceApp) ?_ ?_ ?_ ?_).mp ?_
  · intro x y hxy
    apply List.map_injective_iff.mpr _ (String.ofList_injective hxy)
    exact fun c d hcd => UInt8.toUInt32_inj.mp (congrArg Char.val hcd)
  · decide
  · simp [replaceApp, gitRoot, isPlain]
  · simp [replaceApp, isPlain]
  · exact fun h => absurd (h ["app2"] ((AList.mem_insert _).mpr (Or.inl rfl)) rfl) (by decide)

end Kratix.S3Writer
