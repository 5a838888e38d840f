import Kratix.Lib.ObjectStore

/-!
# What single calls write

A served call reads, adds one object, or replaces one stored object by a new
version of it or by nothing. `Replaces` is the relation between the store
before and after such a replacement, and `Sets` forgets what was written: it
says that one key now holds `v` and that everything else is as before.
-/

namespace Apiserver

variable {S : Scheme} {k : S.Kind} {c c' : Cluster S}

/-! ### Calls that may fail -/

section

variable {call : ApiCall S} {r : Except ApiError call.Result}

theorem MayFail.of_refused (h : MayFail call c r c') {e : ApiError}
    (hs : serve call c = (.error e, c)) : c' = c ∧ ∀ x, r ≠ .ok x := by
  rcases h with ⟨rfl, rfl⟩ | ⟨e', -, rfl, rfl | rfl⟩
  · rw [hs]
    exact ⟨rfl, fun x hx => by cases hx⟩
  · exact ⟨rfl, fun x hx => by cases hx⟩
  · rw [hs]
    exact ⟨rfl, fun x hx => by cases hx⟩

theorem MayFail.of_served (h : MayFail call c r c') {x : call.Result}
    (hs : (serve call c).1 = .ok x) :
    (c' = c ∧ ∀ y, r ≠ .ok y) ∨ c' = (serve call c).2 ∧ ∀ y, r = .ok y → y = x := by
  rcases h with ⟨rfl, rfl⟩ | ⟨e, -, rfl, rfl | rfl⟩
  · exact Or.inr ⟨rfl, fun y hy => Except.ok.inj (hy.symm.trans hs)⟩
  · exact Or.inl ⟨rfl, fun y hy => by cases hy⟩
  · exact Or.inr ⟨rfl, fun y hy => by cases hy⟩

/-- Only the server itself reports that an object does not exist. -/
theorem MayFail.of_notFound (h : MayFail call c (.error .notFound) c') :
    serve call c = (.error .notFound, c') := by
  rcases h with ⟨hr, rfl⟩ | ⟨e, hfault, hr, -⟩
  · rw [hr]
  · cases hr
    cases hfault

end

/-! ### Reading, replacing, adding -/

theorem serve_get (k : S.Kind) (ns name : String) (c : Cluster S) :
    (serve (.get k ns name) c).2 = c ∧
      (∀ o, (serve (.get k ns name) c).1 = .ok o ↔ c.find k (ns, name) = some o) ∧
      ((serve (.get k ns name) c).1 = .error .notFound ↔ c.find k (ns, name) = none) := by
  simp only [serve]
  split
  · next h => simp [h]
  · next o h => simp [h]

/-- One stored object becomes `new`, or goes away; everything else stays. -/
structure Replaces (k : S.Kind) (stored : S.Obj k) (new : Option (S.Obj k)) (c c' : Cluster S) :
    Prop where
  stored_mem : stored ∈ c.objects k
  mem : ∀ x, x ∈ c'.objects k ↔ (x ∈ c.objects k ∧ x.key ≠ stored.key) ∨ new = some x
  key : ∀ x, new = some x → x.key = stored.key ∧ x.created = stored.created
  others : ∀ k', k' ≠ k → c'.objects k' = c.objects k'
  clock : c'.clock = c.clock

theorem replaces_atKey {f : S.Obj k → Option (S.Obj k)} {stored : S.Obj k} (hf : KeepsIdentity f)
    (hs : stored ∈ c.objects k) :
    Replaces k stored (f stored) c (c.rewrite k (atKey stored.key f) hf.atKey) where
  stored_mem := hs
  mem := by
    intro x
    rw [Cluster.mem_rewrite]
    constructor
    · rintro ⟨y, hy, hx⟩
      unfold atKey at hx
      split_ifs at hx with hk
      · rw [c.eq_of_key hy hs hk] at hx
        exact Or.inr hx
      · cases hx
        exact Or.inl ⟨hy, hk⟩
    · rintro (⟨hx, hk⟩ | hx)
      · exact ⟨x, hx, if_neg hk⟩
      · exact ⟨stored, hs, by rw [atKey, if_pos rfl, hx]⟩
  key := fun x hx => ⟨(hf stored x hx).1, (hf stored x hx).2.1⟩
  others := fun k' hk' => Cluster.rewrite_of_ne hk'
  clock := rfl

namespace Replaces

variable {stored : S.Obj k} {new : Option (S.Obj k)}

theorem find_self (h : Replaces k stored new c c') : c'.find k stored.key = new := by
  cases hn : new with
  | none =>
    rw [Cluster.find_eq_none]
    intro x hx
    rcases (h.mem x).mp hx with ⟨-, hk⟩ | hx
    · exact hk
    · rw [hn] at hx
      cases hx
  | some x =>
    rw [Cluster.find_eq_some]
    exact ⟨(h.mem x).mpr (Or.inr hn), (h.key x hn).1⟩

theorem find_of_ne (h : Replaces k stored new c c') {key : String × String}
    (hk : key ≠ stored.key) : c'.find k key = c.find k key := by
  cases hf : c.find k key with
  | none =>
    rw [Cluster.find_eq_none] at hf ⊢
    intro x hx hxk
    rcases (h.mem x).mp hx with ⟨hx, -⟩ | hx
    · exact hf x hx hxk
    · exact hk (hxk ▸ (h.key x hx).1)
  | some x =>
    rw [Cluster.find_eq_some] at hf ⊢
    exact ⟨(h.mem x).mpr (Or.inl ⟨hf.1, hf.2 ▸ hk⟩), hf.2⟩

end Replaces

/-- An update of a stored object is refused, or the object takes the written fields. -/
theorem serve_update {o stored : S.Obj k} (hfind : c.find k o.key = some stored) :
    serve (.update k o) c = (.error .invalid, c) ∨
      (serve (.update k o) c).1 = .ok (stored.accept o) ∧
        Replaces k stored ((stored.accept o).settle) c (serve (.update k o) c).2 ∧
        o.metadata.labels.Valid ∧
        (stored.metadata.deleting = true → ∀ f ∈ o.metadata.finalizers,
          f ∈ stored.metadata.finalizers) := by
  obtain ⟨hmem, hkey⟩ := c.find_eq_some.mp hfind
  simp only [serve, hfind]
  split
  · exact Or.inl rfl
  · next hfin =>
    split
    · next hv =>
      refine Or.inr ⟨rfl, ?_, hv, fun hd f hf => ?_⟩
      · have h := replaces_atKey (keepsIdentity_withWritten hv) hmem
        rw [hkey] at h
        exact h
      · simp only [hd, Bool.true_and, Bool.not_eq_true', Bool.not_eq_false, List.all_eq_true,
          List.contains_iff_mem] at hfin
        exact hfin f hf
    · exact Or.inl rfl

/-- A valid update of an object that is not being deleted is accepted. -/
theorem serve_update_live {o stored : S.Obj k} (hfind : c.find k o.key = some stored)
    (hlive : stored.metadata.deleting = false) (hv : o.metadata.labels.Valid) :
    Replaces k stored (some (stored.accept o)) c (serve (.update k o) c).2 := by
  rcases serve_update hfind with hs | ⟨-, hrep, -⟩
  · simp [serve, hfind, hlive, hv] at hs
  · rwa [Object.settle_of_live (o := stored.accept o) hlive] at hrep

theorem serve_updateStatus {o stored : S.Obj k} (hfind : c.find k o.key = some stored) :
    (serve (.updateStatus k o) c).1 = .ok { stored with status := o.status } ∧
      Replaces k stored (some { stored with status := o.status }) c
        (serve (.updateStatus k o) c).2 := by
  obtain ⟨hmem, hkey⟩ := c.find_eq_some.mp hfind
  simp only [serve, hfind, true_and]
  have h := replaces_atKey (keepsIdentity_withStatus o.status) hmem
  rw [hkey] at h
  exact h

theorem serve_delete_stored {ns name : String} {stored : S.Obj k}
    (hfind : c.find k (ns, name) = some stored) :
    (serve (.delete k ns name) c).1 = .ok () ∧
      Replaces k stored stored.markDeleting.settle c (serve (.delete k ns name) c).2 := by
  obtain ⟨hmem, hkey⟩ := c.find_eq_some.mp hfind
  simp only [serve, hfind, true_and]
  have h := replaces_atKey keepsIdentity_withDeletion hmem
  rw [hkey] at h
  exact h

theorem serve_patch_stored {ns name : String} {f : S.Spec k → S.Spec k} {stored : S.Obj k}
    (hfind : c.find k (ns, name) = some stored) :
    Replaces k stored (some { stored with spec := f stored.spec }) c
      (serve (.patch k ns name f) c).2 := by
  obtain ⟨hmem, hkey⟩ := c.find_eq_some.mp hfind
  simp only [serve, hfind]
  have h := replaces_atKey (keepsIdentity_withSpec f) hmem
  rw [hkey] at h
  exact h

theorem serve_of_missing {key : String × String} (hfind : c.find k key = none) :
    (∀ o : S.Obj k, o.key = key → serve (.update k o) c = (.error .notFound, c)) ∧
      (∀ o : S.Obj k, o.key = key → serve (.updateStatus k o) c = (.error .notFound, c)) ∧
      serve (.delete k key.1 key.2) c = (.error .notFound, c) := by
  refine ⟨?_, ?_, ?_⟩
  · rintro o rfl
    simp only [serve, hfind]
  · rintro o rfl
    simp only [serve, hfind]
  · simp only [serve, hfind]

/-- A new object under an unused key, stamped with the time. -/
structure Adds (k : S.Kind) (o : S.Obj k) (c c' : Cluster S) : Prop where
  objects : c'.objects k = c.objects k ++ [c.stamp o]
  fresh : ∀ x ∈ c.objects k, x.key ≠ o.key
  valid : o.metadata.labels.Valid
  namespaced : S.namespaced k = true → o.metadata.ns ≠ ""
  others : ∀ k', k' ≠ k → c'.objects k' = c.objects k'
  clock : c'.clock = c.clock + 1

theorem adds_add {o : S.Obj k} (hv : o.metadata.labels.Valid)
    (hkey : ∀ x ∈ c.objects k, x.key ≠ o.key) (hns : S.namespaced k = true → o.metadata.ns ≠ "") :
    Adds k o c (c.add k o hv hkey) where
  objects := by simp [Cluster.add]
  fresh := hkey
  valid := hv
  namespaced := hns
  others := fun k' hk' => by simp [hk']
  clock := rfl

theorem serve_create_cases (o : S.Obj k) (c : Cluster S) :
    (∃ e, serve (.create k o) c = (.error e, c)) ∨
      (serve (.create k o) c).1 = .ok (c.stamp o) ∧ Adds k o c (serve (.create k o) c).2 := by
  simp only [serve]
  split
  · exact Or.inl ⟨_, rfl⟩
  · next hns =>
    split
    · next hkey =>
      split
      · next hv => exact Or.inr ⟨rfl, adds_add hv hkey fun hk h => hns (by simp [hk, h])⟩
      · exact Or.inl ⟨_, rfl⟩
    · exact Or.inl ⟨_, rfl⟩

theorem serve_create_valid {o : S.Obj k} (hv : o.metadata.labels.Valid)
    (hns : S.namespaced k = true → o.metadata.ns ≠ "") (c : Cluster S) :
    (∃ stored, c.find k o.key = some stored ∧
        serve (.create k o) c = (.error .alreadyExists, c)) ∨
      (serve (.create k o) c).1 = .ok (c.stamp o) ∧ Adds k o c (serve (.create k o) c).2 := by
  have hnamed : ¬ (S.namespaced k && o.metadata.ns == "") = true := by simpa using hns
  simp only [serve, if_neg hnamed, dif_pos hv]
  split
  · next hkey => exact Or.inr ⟨rfl, adds_add hv hkey hns⟩
  · next hused =>
    simp only [not_forall, not_not] at hused
    obtain ⟨stored, hstored, hkey⟩ := hused
    exact Or.inl ⟨stored, c.find_eq_some.mpr ⟨hstored, hkey⟩, rfl⟩

theorem Cluster.find_key {o : S.Obj k} (h : o ∈ c.objects k) : c.find k o.key = some o :=
  c.find_eq_some.mpr ⟨h, rfl⟩

theorem Adds.mem_iff {o : S.Obj k} (h : Adds k o c c') {x : S.Obj k} :
    x ∈ c'.objects k ↔ x ∈ c.objects k ∨ x = c.stamp o := by
  rw [h.objects, List.mem_append, List.mem_singleton]

/-- The entry of one key becomes `v`; everything else stays. -/
structure Sets (k : S.Kind) (key : String × String) (v : Option (S.Obj k)) (c c' : Cluster S) :
    Prop where
  self : c'.find k key = v
  other : ∀ key', key' ≠ key → c'.find k key' = c.find k key'
  others : ∀ k', k' ≠ k → c'.objects k' = c.objects k'

namespace Sets

variable {key : String × String} {v v' : Option (S.Obj k)} {c'' : Cluster S}

theorem trans (h₁ : Sets k key v c c') (h₂ : Sets k key v' c' c'') : Sets k key v' c c'' where
  self := h₂.self
  other := fun key' hk => (h₂.other key' hk).trans (h₁.other key' hk)
  others := fun k' hk => (h₂.others k' hk).trans (h₁.others k' hk)

theorem of_replaces {stored : S.Obj k} (h : Replaces k stored v c c') :
    Sets k stored.key v c c' :=
  ⟨h.find_self, fun _ => h.find_of_ne, h.others⟩

theorem of_adds {o : S.Obj k} (h : Adds k o c c') : Sets k o.key (some (c.stamp o)) c c' where
  self := by
    rw [Cluster.find_eq_some, h.mem_iff]
    exact ⟨Or.inr rfl, rfl⟩
  other := by
    intro key hk
    cases hf : c.find k key with
    | none =>
      rw [Cluster.find_eq_none] at hf ⊢
      intro x hx
      rcases h.mem_iff.mp hx with hx | rfl
      · exact hf x hx
      · exact fun heq => hk heq.symm
    | some x =>
      rw [Cluster.find_eq_some] at hf ⊢
      exact ⟨h.mem_iff.mpr (Or.inl hf.1), hf.2⟩
  others := h.others

end Sets

/-! ### What becomes of one object -/

/-- What a call can do to a stored object. -/
inductive Fate (call : ApiCall S) (k : S.Kind) (o : S.Obj k) (c' : Cluster S) : Prop
  | kept {o' : S.Obj k} (found : c'.find k o.key = some o') (metadata : o'.metadata = o.metadata)
  | written {x : S.Obj k} (update : call = .update k x) (key : x.key = o.key)
      (found : c'.find k o.key = (o.accept x).settle)
      (finalizers : o.metadata.deleting = true →
        ∀ f ∈ x.metadata.finalizers, f ∈ o.metadata.finalizers)
  | deleted (delete : call = .delete k o.metadata.ns o.metadata.name)
      (found : c'.find k o.key = o.markDeleting.settle)

theorem Fate.of_replaces {call : ApiCall S} {o stored new : S.Obj k} (ho : o ∈ c.objects k)
    (h : Replaces k stored (some new) c c') (hmeta : new.metadata = stored.metadata) :
    Fate call k o c' := by
  by_cases hk : o.key = stored.key
  · obtain rfl := c.eq_of_key ho h.stored_mem hk
    exact .kept h.find_self hmeta
  · exact .kept ((h.find_of_ne hk).trans (Cluster.find_key ho)) rfl

theorem serve_fate (call : ApiCall S) {o : S.Obj k} (ho : o ∈ c.objects k) :
    Fate call k o (serve call c).2 := by
  have hkept : c.find k o.key = some o := Cluster.find_key ho
  by_cases hw : call.Writes k
  swap
  · have hobjects := serve_of_not_writes hw c
    exact .kept ((Cluster.find_eq_some _).mpr ⟨hobjects ▸ ho, rfl⟩) rfl
  cases call with
  | list k' ns sel => exact hw.elim
  | get k' ns name => exact hw.elim
  | create k' x =>
    cases hw
    rcases serve_create_cases x c with ⟨e, hs⟩ | ⟨-, hadds⟩
    · rw [hs]
      exact .kept hkept rfl
    · exact .kept ((Cluster.find_eq_some _).mpr ⟨hadds.mem_iff.mpr (Or.inl ho), rfl⟩) rfl
  | update k' x =>
    cases hw
    cases hfind : c.find k x.key with
    | none =>
      rw [(serve_of_missing hfind).1 x rfl]
      exact .kept hkept rfl
    | some stored =>
      rcases serve_update hfind with hs | ⟨-, hrep, -, hfin⟩
      · rw [hs]
        exact .kept hkept rfl
      · obtain ⟨hmem, hkey⟩ := c.find_eq_some.mp hfind
        by_cases hk : o.key = stored.key
        · obtain rfl := c.eq_of_key ho hmem hk
          exact .written rfl hkey.symm hrep.find_self hfin
        · exact .kept ((hrep.find_of_ne hk).trans hkept) rfl
  | updateStatus k' x =>
    cases hw
    cases hfind : c.find k x.key with
    | none =>
      rw [(serve_of_missing hfind).2.1 x rfl]
      exact .kept hkept rfl
    | some stored => exact .of_replaces ho (serve_updateStatus hfind).2 rfl
  | patch k' ns name f =>
    cases hw
    cases hfind : c.find k (ns, name) with
    | none =>
      simp only [serve, hfind]
      exact .kept hkept rfl
    | some stored => exact .of_replaces ho (serve_patch_stored hfind) rfl
  | delete k' ns name =>
    cases hw
    cases hfind : c.find k (ns, name) with
    | none =>
      rw [(serve_of_missing hfind).2.2]
      exact .kept hkept rfl
    | some stored =>
      have hrep := (serve_delete_stored hfind).2
      obtain ⟨hmem, hkey⟩ := c.find_eq_some.mp hfind
      by_cases hk : o.key = stored.key
      · obtain rfl := c.eq_of_key ho hmem hk
        obtain ⟨rfl, rfl⟩ := Prod.mk.inj hkey
        exact .deleted rfl hrep.find_self
      · exact .kept ((hrep.find_of_ne hk).trans hkept) rfl

/-- Where an object in the store comes from: it is new, or it was there before. -/
theorem serve_origin (call : ApiCall S) {x : S.Obj k} (hx : x ∈ (serve call c).2.objects k) :
    c.clock ≤ x.created ∨ ∃ y ∈ c.objects k, y.key = x.key ∧ y.created = x.created := by
  have hold (h : x ∈ c.objects k) : ∃ y ∈ c.objects k, y.key = x.key ∧ y.created = x.created :=
    ⟨x, h, rfl, rfl⟩
  rcases serve_cases call c with hs | ⟨k', o, hv, hkey, -, hs⟩ | ⟨k', g, hg, -, hs⟩
  · rw [hs] at hx
    exact Or.inr (hold hx)
  · rw [hs] at hx
    by_cases hk : k = k'
    · subst hk
      rcases Cluster.mem_add.mp hx with hx | rfl
      · exact Or.inr (hold hx)
      · exact Or.inl le_rfl
    · rw [Cluster.add_of_ne hk] at hx
      exact Or.inr (hold hx)
  · rw [hs] at hx
    by_cases hk : k = k'
    · subst hk
      obtain ⟨y, hy, hgy⟩ := Cluster.mem_rewrite.mp hx
      obtain ⟨hkey, hcreated, -⟩ := hg y x hgy
      exact Or.inr ⟨y, hy, hkey.symm, hcreated.symm⟩
    · rw [Cluster.rewrite_of_ne hk] at hx
      exact Or.inr (hold hx)

end Apiserver
