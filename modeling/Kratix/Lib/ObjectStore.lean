import Kratix.Lib.SelectorSyntax

/-!
# An object store with finalizers

The part of an API server that controllers rely on. Objects of several kinds
are kept under their namespace and name, each with metadata, a specification
and a status. Deleting an object that carries finalizers only marks it; it
disappears with its last finalizer. A status is written by a separate call,
and writing an object leaves the stored status alone.

Two operations change a store: `add` for a new object, stamped with the
server's clock, and `rewrite` for everything else. That no key and no creation
time is used twice and that all labels are valid is part of the type, so no
call has to establish it again.
-/

namespace Apiserver

structure ObjectMeta where
  ns : String := ""
  name : String := ""
  labels : Labels := ∅
  annotations : Labels := ∅
  finalizers : List String := []
  /-- Creation time of the controlling owner; times identify objects here. -/
  owner : Option ℕ := none
  ownerName : String := ""
  generation : ℕ := 0
  creationTimestamp : ℕ := 0
  /-- Whether the deletion timestamp is set. -/
  deleting : Bool := false
  deriving DecidableEq

structure Object (σ τ : Type) where
  metadata : ObjectMeta
  spec : σ
  status : τ
  deriving DecidableEq

namespace Object

variable {σ τ : Type}

def key (o : Object σ τ) : String × String := (o.metadata.ns, o.metadata.name)

def created (o : Object σ τ) : ℕ := o.metadata.creationTimestamp

/-- The stored object after a write: the server keeps its own fields and the status. -/
def accept (stored o : Object σ τ) : Object σ τ :=
  { stored with
    metadata := { stored.metadata with
      labels := o.metadata.labels
      annotations := o.metadata.annotations
      finalizers := o.metadata.finalizers
      owner := o.metadata.owner
      ownerName := o.metadata.ownerName }
    spec := o.spec }

/-- An object marked for deletion is gone once it has no finalizer left. -/
def settle (o : Object σ τ) : Option (Object σ τ) :=
  if o.metadata.deleting && o.metadata.finalizers.isEmpty then none else some o

def markDeleting (o : Object σ τ) : Object σ τ :=
  { o with metadata := { o.metadata with deleting := true } }

/-- The object as it is stored when it is created at this time. -/
def stampedAt (o : Object σ τ) (time : ℕ) : Object σ τ :=
  { o with metadata := { o.metadata with creationTimestamp := time, deleting := false } }

theorem settle_eq_some {o o' : Object σ τ} (h : o.settle = some o') : o' = o := by
  unfold settle at h
  split_ifs at h
  exact (Option.some.inj h).symm

theorem settle_of_live {o : Object σ τ} (h : o.metadata.deleting = false) : o.settle = some o := by
  simp [settle, h]

@[simp] theorem key_accept (stored o : Object σ τ) : (stored.accept o).key = stored.key := rfl

@[simp] theorem created_accept (stored o : Object σ τ) :
    (stored.accept o).created = stored.created := rfl

@[simp] theorem key_markDeleting (o : Object σ τ) : o.markDeleting.key = o.key := rfl

@[simp] theorem created_markDeleting (o : Object σ τ) : o.markDeleting.created = o.created := rfl

end Object

/-- The kinds of objects a server knows, with what each of them holds. -/
structure Scheme where
  Kind : Type
  decEq : DecidableEq Kind
  Spec : Kind → Type
  Status : Kind → Type
  /-- Whether the objects of the kind live in a namespace. -/
  namespaced : Kind → Bool

instance (S : Scheme) : DecidableEq S.Kind := S.decEq

abbrev Scheme.Obj (S : Scheme) (k : S.Kind) := Object (S.Spec k) (S.Status k)

/-- A change that keeps the identity of an object and the validity of its labels. -/
def KeepsIdentity {σ τ : Type} (g : Object σ τ → Option (Object σ τ)) : Prop :=
  ∀ o o', g o = some o' → o'.key = o.key ∧ o'.created = o.created ∧
    (o.metadata.labels.Valid → o'.metadata.labels.Valid)

/-- The stored objects. No two of a kind share a key or a creation time, every
creation time lies before the clock, and all labels are valid. -/
structure Cluster (S : Scheme) where
  objects : (k : S.Kind) → List (S.Obj k)
  clock : ℕ
  labels_valid : ∀ k, ∀ o ∈ objects k, o.metadata.labels.Valid
  keys_nodup : ∀ k, ((objects k).map Object.key).Nodup
  created_nodup : ∀ k, ((objects k).map Object.created).Nodup
  created_lt : ∀ k, ∀ o ∈ objects k, o.created < clock

namespace Cluster

variable {S : Scheme} (c : Cluster S) {k : S.Kind}

theorem eq_of_key {a b : S.Obj k} (ha : a ∈ c.objects k) (hb : b ∈ c.objects k)
    (h : a.key = b.key) : a = b :=
  List.inj_on_of_nodup_map (c.keys_nodup k) ha hb h

theorem eq_of_created {a b : S.Obj k} (ha : a ∈ c.objects k) (hb : b ∈ c.objects k)
    (h : a.created = b.created) : a = b :=
  List.inj_on_of_nodup_map (c.created_nodup k) ha hb h

def empty (S : Scheme) : Cluster S where
  objects := fun _ => []
  clock := 0
  labels_valid := by simp
  keys_nodup := by simp
  created_nodup := by simp
  created_lt := by simp

/-- At most one object of each kind. -/
def ofOptions (f : (k : S.Kind) → Option (S.Obj k)) (clock : ℕ)
    (hv : ∀ k, ∀ o ∈ f k, o.metadata.labels.Valid) (hlt : ∀ k, ∀ o ∈ f k, o.created < clock) :
    Cluster S where
  objects := fun k => (f k).toList
  clock := clock
  labels_valid := fun k o ho => hv k o (Option.mem_toList.mp ho)
  keys_nodup := fun k => by cases f k <;> simp
  created_nodup := fun k => by cases f k <;> simp
  created_lt := fun k o ho => hlt k o (Option.mem_toList.mp ho)

def find (k : S.Kind) (key : String × String) : Option (S.Obj k) :=
  (c.objects k).find? fun o => o.key = key

theorem find_eq_some {key : String × String} {o : S.Obj k} :
    c.find k key = some o ↔ o ∈ c.objects k ∧ o.key = key := by
  constructor
  · intro h
    exact ⟨List.mem_of_find?_eq_some h, by simpa using List.find?_some h⟩
  · rintro ⟨hm, rfl⟩
    cases hf : c.find k o.key with
    | none => exact absurd (List.find?_eq_none.mp hf o hm) (by simp)
    | some o' =>
      have ho' : o' ∈ c.objects k := List.mem_of_find?_eq_some hf
      have hk : o'.key = o.key := by simpa using List.find?_some hf
      rw [c.eq_of_key ho' hm hk]

theorem find_eq_none {key : String × String} :
    c.find k key = none ↔ ∀ o ∈ c.objects k, o.key ≠ key := by
  simp [find, List.find?_eq_none]

/-! ### The two ways a store changes -/

theorem map_filterMap_sublist {α β : Type} {g : α → Option α} {f : α → β}
    (hg : ∀ a a', g a = some a' → f a' = f a) (l : List α) :
    ((l.filterMap g).map f).Sublist (l.map f) := by
  induction l with
  | nil => exact List.Sublist.slnil
  | cons a l ih =>
    cases ha : g a with
    | none => simpa [List.filterMap_cons, ha] using ih.cons (f a)
    | some a' => simpa [List.filterMap_cons, ha, hg a a' ha] using ih.cons_cons (f a)

/-- Replace each object of a kind by what `g` makes of it, or drop it. -/
def rewrite (k : S.Kind) (g : S.Obj k → Option (S.Obj k)) (hg : KeepsIdentity g) : Cluster S where
  objects := Function.update c.objects k ((c.objects k).filterMap g)
  clock := c.clock
  labels_valid := by
    intro k' o ho
    by_cases h : k' = k
    · subst h
      rw [Function.update_self] at ho
      obtain ⟨o', hmem, ho'⟩ := List.mem_filterMap.mp ho
      exact (hg o' o ho').2.2 (c.labels_valid k' o' hmem)
    · rw [Function.update_of_ne h] at ho
      exact c.labels_valid k' o ho
  keys_nodup := by
    intro k'
    by_cases h : k' = k
    · subst h
      rw [Function.update_self]
      exact (c.keys_nodup k').sublist (map_filterMap_sublist (fun o o' ho => (hg o o' ho).1) _)
    · rw [Function.update_of_ne h]
      exact c.keys_nodup k'
  created_nodup := by
    intro k'
    by_cases h : k' = k
    · subst h
      rw [Function.update_self]
      exact (c.created_nodup k').sublist (map_filterMap_sublist (fun o o' ho => (hg o o' ho).2.1) _)
    · rw [Function.update_of_ne h]
      exact c.created_nodup k'
  created_lt := by
    intro k'
    by_cases h : k' = k
    · subst h
      rw [Function.update_self]
      intro o ho
      obtain ⟨o', hmem, ho'⟩ := List.mem_filterMap.mp ho
      rw [(hg o' o ho').2.1]
      exact c.created_lt k' o' hmem
    · rw [Function.update_of_ne h]
      exact c.created_lt k'

def stamp (o : S.Obj k) : S.Obj k := o.stampedAt c.clock

@[simp] theorem key_stamp (o : S.Obj k) : (c.stamp o).key = o.key := rfl

@[simp] theorem created_stamp (o : S.Obj k) : (c.stamp o).created = c.clock := rfl

/-- Store a new object under an unused key. -/
def add (k : S.Kind) (o : S.Obj k) (hv : o.metadata.labels.Valid)
    (hkey : ∀ x ∈ c.objects k, x.key ≠ o.key) : Cluster S where
  objects := Function.update c.objects k (c.objects k ++ [c.stamp o])
  clock := c.clock + 1
  labels_valid := by
    intro k' o' ho'
    by_cases h : k' = k
    · subst h
      rw [Function.update_self, List.mem_append, List.mem_singleton] at ho'
      rcases ho' with ho' | rfl
      · exact c.labels_valid k' o' ho'
      · exact hv
    · rw [Function.update_of_ne h] at ho'
      exact c.labels_valid k' o' ho'
  keys_nodup := by
    intro k'
    by_cases h : k' = k
    · subst h
      rw [Function.update_self, List.map_append, List.nodup_append]
      refine ⟨c.keys_nodup k', by simp, ?_⟩
      rintro a ha b hb rfl
      obtain ⟨x, hx, rfl⟩ := List.mem_map.mp ha
      exact hkey x hx (by simpa using hb)
    · rw [Function.update_of_ne h]
      exact c.keys_nodup k'
  created_nodup := by
    intro k'
    by_cases h : k' = k
    · subst h
      rw [Function.update_self, List.map_append, List.nodup_append]
      refine ⟨c.created_nodup k', by simp, ?_⟩
      rintro a ha b hb rfl
      obtain ⟨x, hx, rfl⟩ := List.mem_map.mp ha
      have hlt := c.created_lt k' x hx
      simp only [List.map_cons, List.map_nil, List.mem_singleton, created_stamp] at hb
      omega
    · rw [Function.update_of_ne h]
      exact c.created_nodup k'
  created_lt := by
    intro k' o' ho'
    by_cases h : k' = k
    · subst h
      rw [Function.update_self, List.mem_append, List.mem_singleton] at ho'
      rcases ho' with ho' | rfl
      · exact Nat.lt_succ_of_lt (c.created_lt k' o' ho')
      · exact Nat.lt_succ_self _
    · rw [Function.update_of_ne h] at ho'
      exact Nat.lt_succ_of_lt (c.created_lt k' o' ho')

variable {c}

@[simp] theorem mem_rewrite {g : S.Obj k → Option (S.Obj k)} {hg} {o : S.Obj k} :
    o ∈ (c.rewrite k g hg).objects k ↔ ∃ x ∈ c.objects k, g x = some o := by
  simp [rewrite]

@[simp] theorem rewrite_of_ne {g : S.Obj k → Option (S.Obj k)} {hg} {k' : S.Kind} (h : k' ≠ k) :
    (c.rewrite k g hg).objects k' = c.objects k' := by
  simp [rewrite, h]

@[simp] theorem mem_add {o x : S.Obj k} {hv hkey} :
    x ∈ (c.add k o hv hkey).objects k ↔ x ∈ c.objects k ∨ x = c.stamp o := by
  simp [add]

@[simp] theorem add_of_ne {o : S.Obj k} {hv hkey} {k' : S.Kind} (h : k' ≠ k) :
    (c.add k o hv hkey).objects k' = c.objects k' := by
  simp [add, h]

@[simp] theorem clock_rewrite {g : S.Obj k → Option (S.Obj k)} {hg} :
    (c.rewrite k g hg).clock = c.clock := rfl

@[simp] theorem clock_add {o : S.Obj k} {hv hkey} : (c.add k o hv hkey).clock = c.clock + 1 := rfl

end Cluster

/-! ### Calls -/

inductive ApiError
  | notFound
  | alreadyExists
  | conflict
  | invalid
  | unavailable
  deriving DecidableEq, Repr

inductive ApiCall (S : Scheme)
  | list (k : S.Kind) (ns : String) (sel : Selector)
  | get (k : S.Kind) (ns name : String)
  | create (k : S.Kind) (o : S.Obj k)
  | update (k : S.Kind) (o : S.Obj k)
  | updateStatus (k : S.Kind) (o : S.Obj k)
  | patch (k : S.Kind) (ns name : String) (f : S.Spec k → S.Spec k)
  | delete (k : S.Kind) (ns name : String)

variable {S : Scheme}

@[reducible]
def ApiCall.Result : ApiCall S → Type
  | list k _ _ => List (S.Obj k)
  | get k _ _ => S.Obj k
  | create k _ => S.Obj k
  | update k _ => S.Obj k
  | updateStatus k _ => S.Obj k
  | patch k _ _ _ => S.Obj k
  | delete _ _ _ => Unit

/-- Change the object with this key only. -/
def atKey {k : S.Kind} (key : String × String) (f : S.Obj k → Option (S.Obj k)) (o : S.Obj k) :
    Option (S.Obj k) :=
  if o.key = key then f o else some o

theorem KeepsIdentity.atKey {k : S.Kind} {key : String × String}
    {f : S.Obj k → Option (S.Obj k)} (hf : KeepsIdentity f) : KeepsIdentity (atKey key f) := by
  intro o o' h
  unfold Apiserver.atKey at h
  split_ifs at h with hk
  · exact hf o o' h
  · rw [← Option.some.inj h]
    exact ⟨rfl, rfl, id⟩

/-- The stored object of this key takes the written fields. -/
def withWritten {k : S.Kind} (o x : S.Obj k) : Option (S.Obj k) := (x.accept o).settle

theorem keepsIdentity_withWritten {k : S.Kind} {o : S.Obj k} (hv : o.metadata.labels.Valid) :
    KeepsIdentity (withWritten o) := by
  intro x x' h
  rw [Object.settle_eq_some h]
  exact ⟨rfl, rfl, fun _ => hv⟩

def withDeletion {k : S.Kind} (x : S.Obj k) : Option (S.Obj k) := x.markDeleting.settle

theorem keepsIdentity_withDeletion {k : S.Kind} :
    KeepsIdentity (withDeletion : S.Obj k → Option (S.Obj k)) := by
  intro x x' h
  rw [Object.settle_eq_some h]
  exact ⟨rfl, rfl, id⟩

/-- The stored object of this key takes the given status. -/
def withStatus {k : S.Kind} (status : S.Status k) (o : S.Obj k) : Option (S.Obj k) :=
  some { o with status := status }

theorem keepsIdentity_withStatus {k : S.Kind} (status : S.Status k) :
    KeepsIdentity (withStatus status) := by
  intro x x' h
  rw [← Option.some.inj h]
  exact ⟨rfl, rfl, id⟩

def withSpec {k : S.Kind} (f : S.Spec k → S.Spec k) (o : S.Obj k) : Option (S.Obj k) :=
  some { o with spec := f o.spec }

theorem keepsIdentity_withSpec {k : S.Kind} (f : S.Spec k → S.Spec k) :
    KeepsIdentity (withSpec f) := by
  intro x x' h
  rw [← Option.some.inj h]
  exact ⟨rfl, rfl, id⟩

/-- The empty namespace stands for all of them. -/
def inNamespace (ns : String) (o : ObjectMeta) : Bool :=
  ns == "" || o.ns == ns

/-- Listing: the objects of a kind in the namespace that the selector matches. -/
def Cluster.listed (c : Cluster S) (k : S.Kind) (ns : String) (sel : Selector) :
    List (S.Obj k) :=
  (c.objects k).filter fun o => inNamespace ns o.metadata && sel o.metadata.labels

theorem Cluster.mem_listed {c : Cluster S} {k : S.Kind} {ns : String} {sel : Selector}
    {o : S.Obj k} : o ∈ c.listed k ns sel ↔
      o ∈ c.objects k ∧ (ns = "" ∨ o.metadata.ns = ns) ∧ sel o.metadata.labels = true := by
  simp [listed, inNamespace]

/-- The answer of a server that serves every call, and the store after it. -/
def serve : (call : ApiCall S) → Cluster S → Except ApiError call.Result × Cluster S
  | .list k ns sel, c => (.ok (c.listed k ns sel), c)
  | .get k ns name, c =>
    match c.find k (ns, name) with
    | none => (.error .notFound, c)
    | some o => (.ok o, c)
  | .create k o, c =>
    if S.namespaced k && o.metadata.ns == "" then (.error .invalid, c)
    else if hkey : ∀ x ∈ c.objects k, x.key ≠ o.key then
      if hv : o.metadata.labels.Valid then (.ok (c.stamp o), c.add k o hv hkey)
      else (.error .invalid, c)
    else (.error .alreadyExists, c)
  | .update k o, c =>
    match c.find k o.key with
    | none => (.error .notFound, c)
    | some stored =>
      -- no finalizer can be added to an object that is being deleted
      if stored.metadata.deleting &&
          !(o.metadata.finalizers.all (stored.metadata.finalizers.contains ·)) then
        (.error .invalid, c)
      else if hv : o.metadata.labels.Valid then
        (.ok (stored.accept o),
          c.rewrite k (atKey o.key (withWritten o)) (keepsIdentity_withWritten hv).atKey)
      else (.error .invalid, c)
  | .updateStatus k o, c =>
    match c.find k o.key with
    | none => (.error .notFound, c)
    | some stored =>
      (.ok { stored with status := o.status },
        c.rewrite k (atKey o.key (withStatus o.status)) (keepsIdentity_withStatus _).atKey)
  | .patch k ns name f, c =>
    match c.find k (ns, name) with
    | none => (.error .notFound, c)
    | some stored =>
      (.ok { stored with spec := f stored.spec },
        c.rewrite k (atKey (ns, name) (withSpec f)) (keepsIdentity_withSpec f).atKey)
  | .delete k ns name, c =>
    match c.find k (ns, name) with
    | none => (.error .notFound, c)
    | some _ =>
      (.ok (), c.rewrite k (atKey (ns, name) withDeletion) keepsIdentity_withDeletion.atKey)

/-! ### What a call can change -/

def ApiCall.Writes (k : S.Kind) : ApiCall S → Prop
  | list _ _ _ | get _ _ _ => False
  | create k' _ | update k' _ | updateStatus k' _ | patch k' _ _ _ | delete k' _ _ => k' = k

/-- A call changes nothing, adds one object, or rewrites the objects of one kind. -/
theorem serve_cases (call : ApiCall S) (c : Cluster S) :
    (serve call c).2 = c ∨
      (∃ k o hv hkey, call = .create k o ∧ (serve call c).2 = c.add k o hv hkey) ∨
      ∃ k g hg, call.Writes k ∧ (serve call c).2 = c.rewrite k g hg := by
  cases call with
  | list k ns sel => exact Or.inl rfl
  | get k ns name =>
    simp only [serve]
    split <;> exact Or.inl rfl
  | create k o =>
    simp only [serve]
    split
    · exact Or.inl rfl
    · split
      · next hkey =>
        split
        · next hv => exact Or.inr (Or.inl ⟨k, o, hv, hkey, rfl, rfl⟩)
        · exact Or.inl rfl
      · exact Or.inl rfl
  | update k o =>
    simp only [serve]
    split
    · exact Or.inl rfl
    · split
      · exact Or.inl rfl
      · split
        · next hv =>
          exact Or.inr (Or.inr ⟨k, _, (keepsIdentity_withWritten hv).atKey, rfl, rfl⟩)
        · exact Or.inl rfl
  | updateStatus k o =>
    simp only [serve]
    split
    · exact Or.inl rfl
    · exact Or.inr (Or.inr ⟨k, _, (keepsIdentity_withStatus _).atKey, rfl, rfl⟩)
  | patch k ns name f =>
    simp only [serve]
    split
    · exact Or.inl rfl
    · exact Or.inr (Or.inr ⟨k, _, (keepsIdentity_withSpec f).atKey, rfl, rfl⟩)
  | delete k ns name =>
    simp only [serve]
    split
    · exact Or.inl rfl
    · exact Or.inr (Or.inr ⟨k, _, keepsIdentity_withDeletion.atKey, rfl, rfl⟩)

theorem serve_clock (call : ApiCall S) (c : Cluster S) : c.clock ≤ (serve call c).2.clock := by
  rcases serve_cases call c with h | ⟨k, o, hv, hkey, -, h⟩ | ⟨k, g, hg, -, h⟩
  · rw [h]
  · rw [h]
    exact Nat.le_succ _
  · rw [h]
    exact le_rfl

theorem serve_of_not_writes {k : S.Kind} {call : ApiCall S} (hw : ¬ call.Writes k)
    (c : Cluster S) : (serve call c).2.objects k = c.objects k := by
  rcases serve_cases call c with h | ⟨k', o, hv, hkey, rfl, h⟩ | ⟨k', g, hg, hw', h⟩
  · rw [h]
  · rw [h]
    exact Cluster.add_of_ne fun hk => hw hk.symm
  · rw [h]
    exact Cluster.rewrite_of_ne (by rintro rfl; exact hw hw')

/-- Creating an object adds it at the current time or changes nothing. -/
theorem serve_create (k : S.Kind) (o : S.Obj k) (c : Cluster S) :
    (serve (.create k o) c).2 = c ∨
      (serve (.create k o) c).2.objects k = c.objects k ++ [c.stamp o] ∧
        (serve (.create k o) c).2.clock = c.clock + 1 ∧
        (S.namespaced k = true → o.metadata.ns ≠ "") := by
  simp only [serve]
  split
  · exact Or.inl rfl
  · next hns =>
    split
    · split
      · exact Or.inr ⟨by simp [Cluster.add], rfl, fun hk h => hns (by simp [hk, h])⟩
      · exact Or.inl rfl
    · exact Or.inl rfl

theorem exists_key_of_alreadyExists {k : S.Kind} {o : S.Obj k} {c : Cluster S}
    (h : (serve (.create k o) c).1 = .error .alreadyExists) :
    ∃ x ∈ c.objects k, x.key = o.key := by
  simp only [serve] at h
  split at h
  · cases h
  · split at h
    · split at h <;> cases h
    · next hkey =>
      simp only [not_forall, not_not] at hkey
      obtain ⟨x, hx, hk⟩ := hkey
      exact ⟨x, hx, hk⟩

/-- A stored object can be deleted; it is marked or gone, and the others stay. -/
theorem serve_delete {k : S.Kind} {o : S.Obj k} {c : Cluster S} (ho : o ∈ c.objects k) :
    (serve (.delete k o.metadata.ns o.metadata.name) c).1 = .ok () ∧
      ∀ x ∈ c.objects k, x.key ≠ o.key →
        x ∈ (serve (.delete k o.metadata.ns o.metadata.name) c).2.objects k := by
  have hfind : c.find k (o.metadata.ns, o.metadata.name) = some o :=
    c.find_eq_some.mpr ⟨ho, rfl⟩
  simp only [serve, hfind, true_and]
  intro x hx hne
  rw [Cluster.mem_rewrite]
  exact ⟨x, hx, if_neg hne⟩

/-- Errors that say nothing about the stored objects: the call was not served,
or lost against a concurrent write. -/
def ApiError.isFault : ApiError → Bool
  | notFound | alreadyExists => false
  | conflict | invalid | unavailable => true

/-- A call that may fail: it is served, or a fault is reported and the call had
no effect, or its effect is there although a fault is reported. -/
def MayFail (call : ApiCall S) (c : Cluster S) (r : Except ApiError call.Result)
    (c' : Cluster S) : Prop :=
  (r = (serve call c).1 ∧ c' = (serve call c).2) ∨
    ∃ e : ApiError, e.isFault = true ∧ r = .error e ∧ (c' = c ∨ c' = (serve call c).2)

theorem MayFail.cluster {call : ApiCall S} {c c' : Cluster S} {r : Except ApiError call.Result}
    (h : MayFail call c r c') : c' = c ∨ c' = (serve call c).2 := by
  rcases h with ⟨-, h⟩ | ⟨e, -, -, h⟩
  · exact Or.inr h
  · exact h

theorem MayFail.ok {call : ApiCall S} {c c' : Cluster S} {x : call.Result}
    (h : MayFail call c (.ok x) c') : serve call c = (.ok x, c') := by
  rcases h with ⟨hr, rfl⟩ | ⟨e, -, hr, -⟩
  · rw [hr]
  · cases hr

end Apiserver
