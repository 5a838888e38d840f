import Kratix.Writers.WorkingCopies

/-!
# Concurrent updates of a branch

Each update works on its own clone and pushes at most once. A push is accepted
only if nothing was pushed since the clone was made, so the branch holds what
the accepted updates make of the initial tree, one after the other.
-/

namespace Kratix.GitWriter

open Effect GoPath

variable {ι : Type} {i : ι} {s t : Machine ι} {dir : String}

/-! ### What an update makes of a tree -/

def insertWorkload (dir : Path) (files : Files) (w : Workload) : Files :=
  files.insert (join [dir, w.filepath]) w.content

/-- Delete the directory or the listed files, then write the workloads. -/
def Update.transform (g : Writer) (u : Update) (files : Files) : Files :=
  u.workloadsToCreate.foldl (insertWorkload (u.dirInGitRepo g))
    (deleteExistingFiles u.removesDirectory (u.dirInGitRepo g) u.workloadsToDelete files)

theorem withoutPath_of_not_has {e : Entry} {path : Path} (h : ¬ e.Has path) :
    withoutPath path e.files = e.files := by
  refine AList.ext (List.filter_eq_self.mpr fun x hx => ?_)
  have hlookup : e.files.lookup x.1 = some x.2 := AList.mem_lookup_iff.mpr hx
  by_contra hprefix
  rw [Bool.not_eq_true', Bool.not_eq_false, List.isPrefixOf_iff_prefix] at hprefix
  exact h ⟨x.1, by simp [hlookup], hprefix⟩

theorem deleteExistingFiles_listed (dir : Path) (workloadsToDelete : List Path) (files : Files) :
    deleteExistingFiles false dir workloadsToDelete files =
      workloadsToDelete.foldl (fun files file => withoutPath (join [dir, file]) files) files := by
  induction workloadsToDelete generalizing files with
  | nil => exact AList.ext (List.filter_eq_self.mpr fun _ _ => rfl)
  | cons file rest ih =>
    rw [List.foldl_cons, ← ih]
    refine AList.ext ?_
    change List.filter _ _ = List.filter _ (List.filter _ _)
    rw [List.filter_filter]
    congr 1
    funext x
    simp [Bool.and_comm]

/-! ### What the operations owe each other -/

/-- Files are written below the operation's own directory, and `Lstat` fails only
where nothing is. -/
def Reliable (i : ι) (s : Machine ι) : (c : GitCall) → c.Answer → Prop
  | .lstat dir path, found => found = false → ∀ e, s.entry dir = some e → ¬ e.Has path
  | .writeFile path _, _ => ∃ dir, localPath dir <+: path ∧ s.owner dir = some i
  | _, _ => True

def reliable (i : ι) : Handler gitSignature (Machine ι) :=
  fun c s r t => handle i c s r t ∧ Reliable i s c r

/-- What others may do to an operation: remove its clone and push commits of
their own. -/
structure Tolerates (i : ι) (s t : Machine ι) : Prop where
  owner : ∀ d, t.owner d = some i ↔ s.owner d = some i
  entry : ∀ d, s.owner d = some i → t.entry d = s.entry d ∨ t.entry d = none
  commits : ∃ l, t.commits = s.commits ++ l ∧ i ∉ l.map Prod.fst
  initial : t.initial = s.initial

/-- What an update does: it leaves the others alone, and pushes what it makes of
the tree on the branch, at most once. -/
structure Pushes (g : Writer) (u : Update) (i : ι) (c : GitCall) (s t : Machine ι) : Prop where
  owner : ∀ d j, j ≠ i → (t.owner d = some j ↔ s.owner d = some j)
  entry : ∀ d j, j ≠ i → s.owner d = some j → t.entry d = s.entry d ∨ t.entry d = none
  commits : t.commits = s.commits ∨
    (∃ dir, c = .push dir) ∧ i ∉ s.pushed ∧ t.commits = s.commits ++ [(i, u.transform g s.tree)]
  initial : t.initial = s.initial

theorem Tolerates.refl (i : ι) (s : Machine ι) : Tolerates i s s :=
  ⟨fun _ => Iff.rfl, fun _ _ => Or.inl rfl, ⟨[], by simp⟩, rfl⟩

theorem Tolerates.trans {u : Machine ι} (hst : Tolerates i s t) (htu : Tolerates i t u) :
    Tolerates i s u where
  owner := fun d => (htu.owner d).trans (hst.owner d)
  entry := by
    intro d hd
    rcases htu.entry d ((hst.owner d).mpr hd) with h | h
    · rw [h]
      exact hst.entry d hd
    · exact Or.inr h
  commits := by
    obtain ⟨l, hl, hi⟩ := hst.commits
    obtain ⟨l', hl', hi'⟩ := htu.commits
    exact ⟨l ++ l', by rw [hl', hl, List.append_assoc], by simp [hi, hi']⟩
  initial := htu.initial.trans hst.initial

theorem Tolerates.mem_pushed (hst : Tolerates i s t) {j : ι} (hj : j ∈ s.pushed) :
    j ∈ t.pushed := by
  obtain ⟨l, hl, -⟩ := hst.commits
  rw [Machine.pushed, hl, List.map_append]
  exact List.mem_append_left _ hj

theorem Tolerates.not_mem_pushed (hst : Tolerates i s t) (hi : i ∉ s.pushed) : i ∉ t.pushed := by
  obtain ⟨l, hl, hi'⟩ := hst.commits
  rw [Machine.pushed, hl, List.map_append, List.mem_append, not_or]
  exact ⟨hi, hi'⟩

theorem Pushes.tolerates {g : Writer} {u : Update} {c : GitCall} (h : Pushes g u i c s t) {j : ι}
    (hne : i ≠ j) : Tolerates j s t where
  owner := fun d => h.owner d j hne.symm
  entry := fun d => h.entry d j hne.symm
  commits := by
    rcases h.commits with heq | ⟨-, -, heq⟩
    · exact ⟨[], by rw [heq, List.append_nil], by simp⟩
    · exact ⟨_, heq, by simpa using hne.symm⟩
  initial := h.initial

/-- A call in the operation's own directory that is not a push. -/
theorem CallEffect.pushes {g : Writer} {u : Update} {c : GitCall} (hc : CallEffect i s t c)
    (hown : ∀ {dir}, c.Touches dir → s.owner dir = some i) (hpush : ∀ dir, c ≠ .push dir) :
    Pushes g u i c s t := by
  cases hc with
  | same ht =>
    subst ht
    exact ⟨fun _ _ _ => Iff.rfl, fun _ _ _ _ => Or.inl rfl, Or.inl rfl, rfl⟩
  | entry dir e hdir ht =>
    subst ht
    refine ⟨fun _ _ _ => Iff.rfl, fun d j hj hd => ?_, Or.inl rfl, rfl⟩
    refine Or.inl (s.entry_withEntry_of_ne e ?_)
    rintro rfl
    exact hj (Option.some.inj (hd.symm.trans (hown hdir)))
  | wrote dir path content hdir ht =>
    subst ht
    refine ⟨fun _ _ _ => Iff.rfl, fun d j hj hd => ?_, Or.inl rfl, rfl⟩
    refine Or.inl (s.entry_withFile_of_ne path content ?_)
    rintro rfl
    exact hj (Option.some.inj (hd.symm.trans (hown hdir)))
  | made dir htmp hnone hfree ht =>
    subst ht
    refine ⟨fun d j hj => ?_, fun d j hj hd => Or.inl (s.entry_withEntry_of_ne (some {}) ?_),
      Or.inl rfl, rfl⟩
    · by_cases hd : d = dir
      · subst hd
        simp [hfree, Ne.symm hj]
      · simp [hd]
    · rintro rfl
      exact absurd (hfree.symm.trans hd) (by simp)
  | pushed dir => exact absurd rfl (hpush dir)
  | removed path entries ht hnone hentry =>
    refine ⟨fun d j _ => by rw [ht], fun d j _ _ => hentry d, Or.inl (by rw [ht]), by rw [ht]⟩

/-! ### The clone of an operation -/

/-- The operation works on a clone of the tree `T`; unless the clone was removed,
it holds these files, this last commit and this index. -/
structure Working (i : ι) (dir : String) (n : ℕ) (T files head index : Files) (s : Machine ι) :
    Prop where
  only : ∀ d, s.owner d = some i ↔ d = dir
  unpushed : i ∉ s.pushed
  cloned : n ≤ s.commits.length
  base : s.treeAt n = T
  entry : ∀ files' repo, s.entry dir = some ⟨files', some repo⟩ →
    files' = files ∧ repo = ⟨n, head, index⟩

section

variable {n : ℕ} {T files head index : Files}

theorem treeAt_of_append {l : List (ι × Files)} (hcommits : t.commits = s.commits ++ l)
    (hinitial : t.initial = s.initial) (hn : n ≤ s.commits.length) : t.treeAt n = s.treeAt n := by
  rw [Machine.treeAt, Machine.treeAt, hcommits, hinitial, List.take_append_of_le_length hn]

theorem Working.stable (hw : Working i dir n T files head index s) (hst : Tolerates i s t) :
    Working i dir n T files head index t := by
  obtain ⟨l, hl, -⟩ := hst.commits
  refine ⟨fun d => (hst.owner d).trans (hw.only d), hst.not_mem_pushed hw.unpushed, ?_, ?_,
    fun files' repo hentry => ?_⟩
  · rw [hl, List.length_append]
    exact Nat.le_add_right_of_le hw.cloned
  · rw [treeAt_of_append hl hst.initial hw.cloned, hw.base]
  · rcases hst.entry dir ((hw.only dir).mpr rfl) with heq | hnone
    · exact hw.entry files' repo (heq ▸ hentry)
    · exact absurd (hnone.symm.trans hentry) (by simp)

theorem Working.own (hw : Working i dir n T files head index s) : s.owner dir = some i :=
  (hw.only dir).mpr rfl

theorem entry_withEntry_eq_some {e : Option Entry} {x : Entry}
    (h : (s.withEntry dir e).entry dir = some x) : e = some x := by
  unfold Machine.entry Machine.withEntry at h
  cases htmp : s.tmp with
  | none => simp [htmp] at h
  | some entries => simpa [htmp] using h

theorem Working.withEntry (hw : Working i dir n T files head index s) (files' head' index' : Files) :
    Working i dir n T files' head' index'
      (s.withEntry dir (some ⟨files', some ⟨n, head', index'⟩⟩)) := by
  refine ⟨hw.only, hw.unpushed, hw.cloned, hw.base, fun f repo hentry => ?_⟩
  have heq := Option.some.inj (entry_withEntry_eq_some hentry)
  simp only [Entry.mk.injEq, Option.some.injEq] at heq
  exact ⟨heq.1.symm, heq.2.symm⟩

end

/-! ### An update, call by call -/

/-- The program keeps to `Pushes` and ends with `Q`, whatever the others do. -/
abbrev Judged {α : Type} (g : Writer) (u : Update) (i : ι) (Q : α → Machine ι → Prop)
    (p : GitProg α) (s : Machine ι) : Prop :=
  Within (reliable i) (Tolerates i) (Pushes g u i) Q p s

section

variable {g : Writer} {u : Update} {n : ℕ} {T X : Files}

theorem judged_perform {c : GitCall} {Q : c.Answer → Machine ι → Prop}
    (hin : ∀ t, Tolerates i s t → InOwn i t c) (hpush : ∀ dir, c ≠ .push dir)
    (hq : ∀ t r v, Tolerates i s t → handle i c t r v → Reliable i t c r →
      ∀ w, Tolerates i v w → Q r w) :
    Judged g u i Q (Program.perform (S := gitSignature) c) s := by
  refine within_perform fun t ht r v hc => ⟨?_, fun w hw => hq t r v ht hc.1 hc.2 w hw⟩
  refine (handle_effect hc.1).pushes (fun hdir => ?_) hpush
  refine owner_of_touches (hin t ht) (fun path content heq => ?_) hdir
  subst heq
  exact hc.2

theorem judged_removeIfExists (hw : Working i dir n T X T X s) (path : Path) :
    Judged g u i (fun r t => r = .ok () →
      Working i dir n T (withoutPath path X) T (withoutPath path X) t)
      (removeIfExists dir path) s := by
  refine within_bind (M := fun found t => Working i dir n T X T X t ∧
    (found = false → ∀ files repo, t.entry dir = some ⟨files, some repo⟩ → withoutPath path X = X))
    (Tolerates.refl i) ?_ fun found t ht => ?_
  · refine judged_perform (fun _ _ => True.intro) (by simp) fun t found v ht hc hrel w hvw => ?_
    obtain ⟨rfl, -⟩ := hc
    have hv := hw.stable ht
    refine ⟨hv.stable hvw, fun hfound files repo hentry => ?_⟩
    rcases hvw.entry dir hv.own with heq | hnone
    · have hentry' := heq ▸ hentry
      obtain ⟨rfl, -⟩ := hv.entry files repo hentry'
      exact @withoutPath_of_not_has ⟨files, some repo⟩ path (hrel hfound _ hentry')
    · exact absurd (hnone.symm.trans hentry) (by simp)
  · obtain ⟨ht, hskip⟩ := ht
    cases found with
    | true =>
      refine judged_perform (fun v hv => (ht.stable hv).own) (by simp) fun v r w hv hc _ x hwx => ?_
      rintro rfl
      obtain ⟨files, repo, hentry, rfl⟩ := hc
      obtain ⟨rfl, rfl⟩ := (ht.stable hv).entry files repo hentry
      exact ((ht.stable hv).withEntry _ _ _).stable hwx
    | false =>
      refine within_pure fun v hv _ => ?_
      have hv' := ht.stable hv
      refine ⟨hv'.only, hv'.unpushed, hv'.cloned, hv'.base, fun files repo hentry => ?_⟩
      have hkept : withoutPath path X = X := by
        rcases hv.entry dir ht.own with heq | hnone
        · exact hskip rfl files repo (heq ▸ hentry)
        · exact absurd (hnone.symm.trans hentry) (by simp)
      rw [hkept]
      exact hv'.entry files repo hentry

theorem judged_removeFiles (hw : Working i dir n T X T X s) (path : Path) (listed : List Path) :
    Judged g u i (fun r t => r = .ok () →
      Working i dir n T (listed.foldl (fun files file => withoutPath (join [path, file]) files) X) T
        (listed.foldl (fun files file => withoutPath (join [path, file]) files) X) t)
      (removeFiles dir path listed) s := by
  induction listed generalizing X s with
  | nil => exact within_pure fun t ht _ => hw.stable ht
  | cons file rest ih =>
    refine within_bind (Tolerates.refl i) (judged_removeIfExists hw _) fun r t hr => ?_
    cases r with
    | error e => exact within_pure fun _ _ h => by cases h
    | ok done => exact ih (hr rfl)

theorem judged_deleteFromClone (hw : Working i dir n T X T X s) (removeDirectory : Bool)
    (path : Path) (listed : List Path) :
    Judged g u i (fun r t => r = .ok () →
      Working i dir n T (deleteExistingFiles removeDirectory path listed X) T
        (deleteExistingFiles removeDirectory path listed X) t)
      (deleteFromClone removeDirectory path listed dir) s := by
  unfold deleteFromClone
  cases removeDirectory with
  | true => exact judged_removeIfExists hw path
  | false =>
    rw [deleteExistingFiles_listed]
    exact judged_removeFiles hw path listed

/-- Inside a clone the absolute path is the one in the worktree, below the clone. -/
theorem join_localPath (hplain : isPlain dir = true) {elems : List Path}
    (hpath : isWorktreePath (join elems)) :
    join [localPath dir, join elems] = localPath dir ++ join elems := by
  have hlocal : clean (localPath dir) = localPath dir := by
    have hparts : ∀ part ∈ ["tmp", dir], isPlain part = true := by
      intro part hpart
      rcases List.mem_pair.mp hpart with rfl | rfl
      · decide
      · exact hplain
    change "" :: normalize true ["tmp", dir] = _
    rw [normalize_plain hparts]
    rfl
  have hclean := clean_append_plain (localPath dir) (isPlain_of_mem_clean hpath.1 hpath.2)
  rw [hlocal] at hclean
  simpa [join] using hclean

theorem Working.withFile {files : Files} (hw : Working i dir n T files T X s) (rest : Path)
    (content : Bytes) :
    Working i dir n T (files.insert rest content) T X (s.withFile dir rest content) := by
  refine ⟨hw.only, hw.unpushed, hw.cloned, hw.base, fun files' repo hentry => ?_⟩
  have hself : (s.withFile dir rest content).entry dir = some { (s.entry dir).getD {} with
      files := ((s.entry dir).getD {}).files.insert rest content } := by
    simp [Machine.entry, Machine.withFile]
  rw [hself] at hentry
  cases he : s.entry dir with
  | none => simp [he] at hentry
  | some e =>
    obtain ⟨files₀, repo₀⟩ := e
    simp only [he, Option.getD_some, Option.some.injEq, Entry.mk.injEq] at hentry
    obtain ⟨rfl, rfl⟩ := hentry
    obtain ⟨rfl, rfl⟩ := hw.entry files₀ repo he
    exact ⟨rfl, rfl⟩

theorem judged_writeToClone (hplain : isPlain dir = true) (hw : Working i dir n T X T X s)
    (path : Path) (create : List Workload) :
    Judged g u i (fun r t => r = .ok true →
      Working i dir n T (create.foldl (insertWorkload path) X) T
        (create.foldl (insertWorkload path) X) t)
      (writeToClone dir path create) s := by
  induction create generalizing X s with
  | nil => exact within_pure fun t ht _ => hw.stable ht
  | cons file rest ih =>
    unfold writeToClone
    dsimp only
    split
    · exact within_pure fun _ _ h => by cases h
    · refine within_bind (M := fun r t => r = .ok () → ∃ q,
        join [localPath dir, join [path, file.filepath]] = localPath dir ++ q ∧
        Working i dir n T (X.insert q file.content) T X t) (Tolerates.refl i) ?_ fun r t hr => ?_
      · refine judged_perform (fun _ _ => True.intro) (by simp) fun t r v ht hc hrel w hvw => ?_
        rintro rfl
        obtain ⟨dir', q, hq, -, -, rfl⟩ := hc
        have hown : t.owner dir' = some i := owner_of_touches (c := .writeFile _ file.content)
          True.intro (fun _ _ heq => by cases heq; exact hrel) ⟨q, hq.symm⟩
        obtain rfl := ((hw.stable ht).only dir').mp hown
        exact ⟨q, hq, ((hw.stable ht).withFile q file.content).stable hvw⟩
      · cases r with
        | error e => exact within_pure fun _ _ h => by cases h
        | ok done =>
          obtain ⟨q, hq, ht⟩ := hr rfl
          refine within_bind (M := fun r t => r = .ok () → Working i dir n T
            (insertWorkload path X file) T (insertWorkload path X file) t) (Tolerates.refl i) ?_
            fun r t hr => ?_
          · refine judged_perform (fun v hv => (ht.stable hv).own) (by simp)
              fun v r w hv hc _ x hwx => ?_
            rintro rfl
            obtain ⟨files, repo, content, hentry, hpath, hlookup, rfl⟩ := hc
            obtain ⟨rfl, rfl⟩ := (ht.stable hv).entry files repo hentry
            obtain rfl : q = join [path, file.filepath] :=
              (List.append_cancel_left (hq.symm.trans (join_localPath hplain hpath)))
            obtain rfl : content = file.content := by
              rw [AList.lookup_insert] at hlookup
              exact (Option.some.inj hlookup).symm
            exact ((ht.stable hv).withEntry _ _ _).stable hwx
          · cases r with
            | error e => exact within_pure fun _ _ h => by cases h
            | ok done => exact ih (hr rfl)

theorem judged_push (hw : Working i dir n T X X X s) (hX : X = u.transform g T) :
    Judged g u i (fun r t => r = .ok () → i ∈ t.pushed) (push dir) s := by
  refine within_perform fun t ht r v hc => ?_
  have ht' := hw.stable ht
  rcases hc.1 with ⟨rfl, hno⟩ | ⟨files, repo, hentry, hbase, rfl⟩
  · exact ⟨⟨fun _ _ _ => Iff.rfl, fun _ _ _ _ => Or.inl rfl, Or.inl rfl, rfl⟩,
      fun _ _ hr => absurd hr hno⟩
  · obtain ⟨rfl, rfl⟩ := ht'.entry files repo hentry
    refine ⟨⟨fun _ _ _ => Iff.rfl, fun _ _ _ _ => Or.inl rfl, Or.inr ⟨⟨dir, rfl⟩, ht'.unpushed, ?_⟩,
      rfl⟩, fun w hw' _ => ?_⟩
    -- nothing was pushed since the clone was made
    · have htree : t.tree = T := by
        rw [← ht'.base, Machine.tree, ← show n = t.commits.length from hbase]
      rw [htree, ← hX]
    · obtain ⟨l, hl, -⟩ := hw'.commits
      rw [Machine.pushed, hl]
      simp

theorem judged_commitAndPush (hw : Working i dir n T X T X s) (hX : X = u.transform g T)
    (message : String) :
    Judged g u i (fun r t => ∀ v, r = .ok v → v ≠ "" → i ∈ t.pushed)
      (commitAndPush dir message) s := by
  refine within_bind (M := fun _ t => Working i dir n T X T X t) (Tolerates.refl i) ?_
    fun r t ht => ?_
  · refine judged_perform (fun _ _ => True.intro) (by simp) fun t r v ht hc _ w hvw => ?_
    have hv : v = t := by
      cases r with
      | error e => exact hc
      | ok clean => exact hc.1
    exact (hw.stable (hv ▸ ht)).stable hvw
  · rcases r with e | (_ | _)
    · exact within_pure fun _ _ v h => by cases h
    · refine within_bind (M := fun r t => ∀ sha, r = .ok sha → sha ≠ "" ∧
        Working i dir n T X X X t) (Tolerates.refl i) ?_ fun r t hr => ?_
      · refine judged_perform (fun v hv => (ht.stable hv).own) (by simp)
          fun v r w hv hc _ x hwx => ?_
        rintro sha rfl
        obtain ⟨hsha, files, repo, hentry, rfl⟩ := hc
        obtain ⟨rfl, rfl⟩ := (ht.stable hv).entry files repo hentry
        exact ⟨hsha, ((ht.stable hv).withEntry _ _ _).stable hwx⟩
      · cases r with
        | error e => exact within_pure fun _ _ v h => by cases h
        | ok sha =>
          refine within_bind (Tolerates.refl i) (judged_push (hr sha rfl).2 hX) fun r t hr => ?_
          cases r with
          | error e => exact within_pure fun _ _ v h => by cases h
          | ok done =>
            exact within_pure fun w hw' v _ _ => hw'.mem_pushed (hr rfl)
    · refine within_pure fun _ _ v hv hne => ?_
      exact absurd (Except.ok.inj hv).symm hne

theorem judged_updateClone (hplain : isPlain dir = true) (hw : Working i dir n T T T T s) :
    Judged g u i (fun r t => ∀ v, r = .ok v → v ≠ "" → i ∈ t.pushed)
      (updateClone g u dir) s := by
  refine within_bind (Tolerates.refl i) (judged_deleteFromClone hw _ _ _) fun r t hr => ?_
  cases r with
  | error e => exact within_pure fun _ _ v h => by cases h
  | ok done =>
    refine within_bind (Tolerates.refl i) (judged_writeToClone hplain (hr rfl) _ _) fun r t hr => ?_
    rcases r with e | (_ | _)
    · exact within_pure fun _ _ v h => by cases h
    · refine within_pure fun _ _ v hv hne => ?_
      exact absurd (Except.ok.inj hv).symm hne
    · exact judged_commitAndPush (hr rfl) rfl _

structure Idle (i : ι) (s : Machine ι) : Prop where
  owns : ∀ d, s.owner d ≠ some i
  unpushed : i ∉ s.pushed

theorem Idle.stable (hs : Idle i s) (hst : Tolerates i s t) : Idle i t :=
  ⟨fun d hd => hs.owns d ((hst.owner d).mp hd), hst.not_mem_pushed hs.unpushed⟩

theorem judged_setup (hs : Idle i s) :
    Judged g u i (fun r t => ∀ dir, r = .ok dir → isPlain dir = true ∧
      ∃ n T, Working i dir n T T T T t) setupLocalDirectoryWithRepo s := by
  refine within_bind (M := fun r t => ∀ dir, r = .ok dir → isPlain dir = true ∧
    (∀ d, t.owner d = some i ↔ d = dir) ∧ i ∉ t.pushed) (Tolerates.refl i) ?_ fun r t hr => ?_
  · refine judged_perform (fun _ _ => True.intro) (by simp) fun t r v ht hc _ w hvw => ?_
    rintro dir rfl
    obtain ⟨hplain, -, -, -, rfl⟩ := hc
    have ht' := hs.stable ht
    refine ⟨hplain, fun d => ?_, hvw.not_mem_pushed ht'.unpushed⟩
    rw [hvw.owner]
    by_cases hd : d = dir
    · subst hd
      simp
    · simp [hd, ht'.owns d]
  · cases r with
    | error e => exact within_pure fun _ _ d h => by cases h
    | ok dir =>
      obtain ⟨hplain, honly, hunpushed⟩ := hr dir rfl
      refine within_bind (M := fun r t => r = .ok () → ∃ n T, Working i dir n T T T T t)
        (Tolerates.refl i) ?_ fun r t hr => ?_
      · refine judged_perform (fun v hv => (hv.owner dir).mpr ((honly dir).mpr rfl)) (by simp)
          fun v r w hv hc _ x hwx => ?_
        rintro rfl
        obtain ⟨-, rfl⟩ := hc
        have hw : Working i dir v.commits.length v.tree v.tree v.tree v.tree
            (v.withEntry dir (some ⟨v.tree, some ⟨v.commits.length, v.tree, v.tree⟩⟩)) := by
          refine ⟨fun d => (hv.owner d).trans (honly d), hv.not_mem_pushed hunpushed, le_rfl, rfl,
            fun files repo hentry => ?_⟩
          have heq := Option.some.inj (entry_withEntry_eq_some hentry)
          simp only [Entry.mk.injEq, Option.some.injEq] at heq
          exact ⟨heq.1.symm, heq.2.symm⟩
        exact ⟨_, _, hw.stable hwx⟩
      · cases r with
        | error e => exact within_pure fun _ _ d h => by cases h
        | ok done =>
          obtain ⟨n, T, ht⟩ := hr rfl
          refine within_pure fun w hw d hd => ?_
          obtain rfl := Except.ok.inj hd
          exact ⟨hplain, n, T, ht.stable hw⟩

theorem judged_updateFiles (hs : Idle i s) :
    Judged g u i (fun r t => ∀ v, r = .ok v → v ≠ "" → i ∈ t.pushed) (updateFiles g u) s := by
  unfold updateFiles
  split
  · exact within_pure fun _ _ v hv hne => absurd (Except.ok.inj hv).symm hne
  · refine within_bind (Tolerates.refl i) (judged_setup hs) fun r t hr => ?_
    cases r with
    | error e => exact within_pure fun _ _ v h => by cases h
    | ok dir =>
      obtain ⟨hplain, n, T, ht⟩ := hr dir rfl
      refine within_bind (Tolerates.refl i) (judged_updateClone hplain ht) fun r t hr => ?_
      refine within_bind (M := fun _ t => ∀ v, r = .ok v → v ≠ "" → i ∈ t.pushed)
        (Tolerates.refl i) ?_ fun _ t ht => within_pure fun w hw v hv hne =>
          hw.mem_pushed (ht v hv hne)
      refine judged_perform (fun _ _ => True.intro) (by simp) fun t' _ w ht' hc _ x hwx => ?_
      intro v hv hne
      obtain ⟨entries, rfl, -⟩ := hc
      exact hwx.mem_pushed (ht'.mem_pushed (hr v hv hne))

end

/-! ### Runs -/

structure Unstarted (s : Machine ι) : Prop where
  owner : ∀ d, s.owner d = none
  commits : s.commits = []

theorem tree_of_append {files : Files} (hcommits : t.commits = s.commits ++ [(i, files)]) :
    t.tree = files := by
  rw [Machine.tree, Machine.treeAt, hcommits, List.take_length, List.getLast?_concat]
  rfl

/-- The branch is what the pushed updates make of its initial tree. -/
structure BranchOf (calls : ι → Writer × Update) (initial : Files) (s : Machine ι) : Prop where
  tree : s.tree = s.pushed.foldl (fun files i => (calls i).2.transform (calls i).1 files) initial
  once : s.pushed.Nodup

theorem Pushes.branchOf {calls : ι → Writer × Update} {initial : Files} {c : GitCall}
    (h : Pushes (calls i).1 (calls i).2 i c s t) (hs : BranchOf calls initial s) :
    BranchOf calls initial t := by
  rcases h.commits with heq | ⟨-, hi, heq⟩
  · have htree : t.tree = s.tree := by
      rw [Machine.tree, Machine.tree, Machine.treeAt, Machine.treeAt, heq, h.initial]
    have hpushed : t.pushed = s.pushed := by rw [Machine.pushed, Machine.pushed, heq]
    exact ⟨by rw [htree, hpushed, hs.tree], hpushed ▸ hs.once⟩
  · have hpushed : t.pushed = s.pushed ++ [i] := by
      rw [Machine.pushed, heq, List.map_append]
      rfl
    refine ⟨?_, ?_⟩
    · rw [tree_of_append heq, hpushed, List.foldl_concat, hs.tree]
    · rw [hpushed, List.nodup_append]
      exact ⟨hs.once, by simp, fun a ha b hb => by
        rw [List.mem_singleton.mp hb]
        exact fun hab => hi (hab ▸ ha)⟩

/-! ### One update -/

/-- An update that replaces the content of the directory `app` by one file. -/
def replaceApp : Update := ⟨["app"], "placement", [⟨["new"], []⟩], []⟩

def gitRoot : Writer := ⟨.git, "store", []⟩

section

variable (T : Files)

/-- The states of the machine while the update runs, if the branch holds `T` and
`Lstat` does not find the directory. -/
def begun : Machine Unit := ⟨some fun _ => none, fun _ => none, T, []⟩

def made : Machine Unit :=
  { (begun T).withEntry "kratix-repo1" (some {}) with
    owner := Function.update (begun T).owner "kratix-repo1" (some ()) }

def cloned : Machine Unit := (made T).withEntry "kratix-repo1" (some ⟨T, some ⟨0, T, T⟩⟩)

def withNew : Files := T.insert ["app", "new"] []

def written : Machine Unit := (cloned T).withFile "kratix-repo1" ["app", "new"] []

def staged : Machine Unit :=
  (written T).withEntry "kratix-repo1" (some ⟨withNew T, some ⟨0, T, withNew T⟩⟩)

def committed : Machine Unit :=
  (staged T).withEntry "kratix-repo1" (some ⟨withNew T, some ⟨0, withNew T, withNew T⟩⟩)

def afterPush : Machine Unit := { committed T with commits := [((), withNew T)] }

theorem handle_made : handle () .mkdirTemp (begun T) (.ok "kratix-repo1") (made T) :=
  ⟨by decide, rfl, rfl, rfl, rfl⟩

theorem handle_cloned : handle () (.clone "kratix-repo1") (made T) (.ok ()) (cloned T) :=
  ⟨rfl, rfl⟩

theorem handle_lstat :
    handle () (.lstat "kratix-repo1" ["app"]) (cloned T) false (cloned T) :=
  ⟨rfl, fun h => by cases h⟩

theorem handle_written (hfree : T.blocked ["app", "new"] = false) :
    handle () (.writeFile ["", "tmp", "kratix-repo1", "app", "new"] []) (cloned T) (.ok ())
      (written T) :=
  ⟨"kratix-repo1", ["app", "new"], rfl, fun _ => by decide, hfree, rfl⟩

theorem handle_staged :
    handle () (.add "kratix-repo1" ["app", "new"]) (written T) (.ok ()) (staged T) :=
  ⟨withNew T, ⟨0, T, T⟩, [], rfl, ⟨by decide, by decide⟩, AList.lookup_insert _, rfl⟩

theorem handle_status (hnew : T.lookup ["app", "new"] = none) :
    handle () (.status "kratix-repo1") (staged T) (.ok false) (staged T) := by
  refine ⟨rfl, withNew T, ⟨0, T, withNew T⟩, rfl, by simp, fun hclean => ?_⟩
  have hsame := hclean.1 ["app", "new"]
  rw [show (withNew T).lookup ["app", "new"] = some [] from AList.lookup_insert _, hnew] at hsame
  cases hsame

theorem handle_committed :
    handle () (.commit "kratix-repo1" "Update from: placement") (staged T) (.ok "sha")
      (committed T) :=
  ⟨by decide, withNew T, ⟨0, T, withNew T⟩, rfl, rfl⟩

theorem handle_pushed : handle () (.push "kratix-repo1") (committed T) (.ok ()) (afterPush T) :=
  Or.inr ⟨withNew T, ⟨0, withNew T, withNew T⟩, rfl, rfl, rfl⟩

end

/-- The directory holds a file that the update should replace. -/
def oldTree : Files := (∅ : Files).insert ["app", "old"] []

/-- `Lstat` of the directory fails, and the update pushes a tree that still holds
the old file. -/
theorem failed_lstat_keeps_files :
    ∃ x, Interleaves handle (fun _ => updateFiles gitRoot replaceApp, begun oldTree) x ∧
      x.2.pushed = [()] ∧ x.2.tree.lookup ["app", "old"] = some [] ∧
      (replaceApp.transform gitRoot oldTree).lookup ["app", "old"] = none := by
  refine ⟨_, (((((((Relation.ReflTransGen.single ⟨(), _, .call rfl (handle_made oldTree)⟩).tail
    ⟨(), _, .call rfl (handle_cloned oldTree)⟩).tail
    ⟨(), _, .call rfl (handle_lstat oldTree)⟩).tail
    ⟨(), _, .call rfl (handle_written oldTree (by decide))⟩).tail
    ⟨(), _, .call rfl (handle_staged oldTree)⟩).tail
    ⟨(), _, .call rfl (handle_status oldTree (by decide))⟩).tail
    ⟨(), _, .call rfl (handle_committed oldTree)⟩).tail
    ⟨(), _, .call rfl (handle_pushed oldTree)⟩, rfl, by decide, by decide⟩

/-- Whatever the interleaving and the faults, as long as `Lstat` fails only where
nothing is: the branch is what the pushed updates make of its initial tree, one
after the other, and only a push changes it. -/
theorem branch_holds_pushed_updates [DecidableEq ι] (calls : ι → Writer × Update)
    {s : Machine ι} {x : (ι → GitProg (Except StoreError String)) × Machine ι}
    (hs : Unstarted s)
    (hrun : Interleaves reliable (fun i => updateFiles (calls i).1 (calls i).2, s) x) :
    BranchOf calls s.initial x.2 ∧
      (∀ i v, x.1 i = .done (.ok v) → v ≠ "" → i ∈ x.2.pushed) ∧
      ∀ i c y, Step reliable i c x y → y.2.commits = x.2.commits ∨
        (∃ dir, c = .push dir) ∧ y.2.pushed = x.2.pushed ++ [i] := by
  have htrans : ∀ (j : ι) (s t u : Machine ι), Tolerates j s t → Tolerates j t u →
      Tolerates j s u := fun _ _ _ _ => Tolerates.trans
  have htolerates : ∀ (i j : ι) (c : GitCall) (s t : Machine ι), i ≠ j →
      Pushes (calls i).1 (calls i).2 i c s t → Tolerates j s t :=
    fun _ _ _ _ _ hne h => h.tolerates hne
  have hjudged : ∀ j, Judged (calls j).1 (calls j).2 j
      (fun r t => ∀ v, r = .ok v → v ≠ "" → j ∈ t.pushed)
      (updateFiles (calls j).1 (calls j).2) s := fun j =>
    judged_updateFiles ⟨fun d hd => by simp [hs.owner d] at hd, by simp [Machine.pushed, hs.commits]⟩
  have hx := Interleaves.within htrans Tolerates.refl htolerates hrun hjudged
  refine ⟨?_, fun i v hdone hne => ?_, fun i c y hstep => ?_⟩
  · refine Interleaves.invariant htrans Tolerates.refl htolerates hrun hjudged
      (fun i c s t h => h.branchOf) ⟨?_, ?_⟩
    · simp [Machine.tree, Machine.treeAt, Machine.pushed, hs.commits]
    · simp [Machine.pushed, hs.commits]
  · have hi := hx i
    rw [hdone] at hi
    exact hi x.2 (Tolerates.refl i x.2) v rfl hne
  · rcases (hstep.within htrans Tolerates.refl htolerates hx).1.commits with heq | ⟨hpush, -, heq⟩
    · exact Or.inl heq
    · refine Or.inr ⟨hpush, ?_⟩
      rw [Machine.pushed, heq, List.map_append]
      rfl

/-- The update of an empty branch, up to its push. -/
theorem branch_holds_pushed_updates_sample :
    ∃ x : (Unit → GitProg (Except StoreError String)) × Machine Unit,
      Interleaves reliable (fun _ => updateFiles gitRoot replaceApp, begun ∅) x ∧
      x.2.pushed = [()] ∧ x.2.tree = replaceApp.transform gitRoot ∅ := by
  have hlstat : reliable () (.lstat "kratix-repo1" ["app"]) (cloned ∅) false (cloned ∅) := by
    refine ⟨handle_lstat ∅, fun _ e he hhas => ?_⟩
    obtain rfl : (⟨∅, some ⟨0, ∅, ∅⟩⟩ : Entry) = e := Option.some.inj he
    obtain ⟨q, hq, -⟩ := hhas
    cases hq
  have hwritten : reliable () (.writeFile ["", "tmp", "kratix-repo1", "app", "new"] []) (cloned ∅)
      (.ok ()) (written ∅) :=
    ⟨handle_written ∅ (by decide), "kratix-repo1", ⟨["app", "new"], rfl⟩, rfl⟩
  have hrun : ∃ x : (Unit → GitProg (Except StoreError String)) × Machine Unit,
      Interleaves reliable (fun _ => updateFiles gitRoot replaceApp, begun ∅) x ∧
        x.2 = afterPush ∅ := by
    refine ⟨_, (((((((Relation.ReflTransGen.single
      ⟨(), _, .call rfl ⟨handle_made ∅, True.intro⟩⟩).tail
      ⟨(), _, .call rfl ⟨handle_cloned ∅, True.intro⟩⟩).tail ⟨(), _, .call rfl hlstat⟩).tail
      ⟨(), _, .call rfl hwritten⟩).tail ⟨(), _, .call rfl ⟨handle_staged ∅, True.intro⟩⟩).tail
      ⟨(), _, .call rfl ⟨handle_status ∅ rfl, True.intro⟩⟩).tail
      ⟨(), _, .call rfl ⟨handle_committed ∅, True.intro⟩⟩).tail
      ⟨(), _, .call rfl ⟨handle_pushed ∅, True.intro⟩⟩, rfl⟩
  obtain ⟨x, hx, hend⟩ := hrun
  have hbranch := (branch_holds_pushed_updates (fun _ : Unit => (gitRoot, replaceApp))
    ⟨fun _ => rfl, rfl⟩ hx).1
  have hpushed : x.2.pushed = [()] := by rw [hend]; rfl
  refine ⟨x, hx, hpushed, ?_⟩
  rw [hbranch.tree, hpushed]
  rfl

end Kratix.GitWriter
