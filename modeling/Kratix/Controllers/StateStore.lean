import Kratix.World
import Mathlib.Data.List.TakeWhile

/-!
# State stores and the Secrets they use

A state store names a Secret with the credentials of its writer. The writer reads
it through `fetchObjectAndSecret`; a change of a Secret is answered by reconciling
the state stores that an index has under the key of the Secret. The two look at
the reference independently of each other.
-/

namespace Kratix.StateStores

open Apiserver Effect

structure SecretReference where
  name : String
  ns : String := ""
  deriving DecidableEq

inductive GitAuthMethod
  | basicAuth
  | ssh
  deriving DecidableEq

inductive BucketAuthMethod
  | accessKey
  | iam
  /-- The empty text, from when the field was optional. -/
  | unset
  deriving DecidableEq

structure GitStateStoreSpec where
  secretRef : Option SecretReference
  authMethod : GitAuthMethod := .basicAuth
  deriving DecidableEq

structure BucketStateStoreSpec where
  secretRef : Option SecretReference
  authMethod : BucketAuthMethod := .accessKey
  deriving DecidableEq

inductive Kind
  | stateStore (k : StateStoreKind)
  | secret
  deriving DecidableEq

@[reducible]
def StoreSpec : StateStoreKind → Type
  | .git => GitStateStoreSpec
  | .bucket => BucketStateStoreSpec

@[reducible]
def scheme : Scheme where
  Kind := Kind
  decEq := inferInstance
  Spec
    | .stateStore k => StoreSpec k
    | .secret => StringMap Bytes
  Status _ := Unit
  namespaced
    | .stateStore _ => false
    | .secret => true

abbrev StateStore (k : StateStoreKind) := scheme.Obj (.stateStore k)

abbrev Secret := scheme.Obj .secret

/-! ### Specifications -/

def getSecretRef : (k : StateStoreKind) → StoreSpec k → Option SecretReference
  | .git, spec => GitStateStoreSpec.secretRef spec
  | .bucket, spec => BucketStateStoreSpec.secretRef spec

/-- The entries of the Secret that the writer reads for its authentication method. -/
def credentialKeys : (k : StateStoreKind) → StoreSpec k → List String
  | .git, spec =>
    match GitStateStoreSpec.authMethod spec with
    | .ssh => ["sshPrivateKey", "knownHosts"]
    | .basicAuth => ["username", "password"]
  | .bucket, spec =>
    match BucketStateStoreSpec.authMethod spec with
    | .iam => []
    | .unset | .accessKey => ["accessKeyID", "secretAccessKey"]

def BucketStateStoreSpec.validateSecretRef (spec : BucketStateStoreSpec) : Except String Unit :=
  if spec.authMethod = .accessKey then
    match spec.secretRef with
    | none => .error "spec.secretRef must be set when using authentication method accessKey"
    | some ref =>
      if ref.name = "" then .error "spec.secretRef must contain secret name"
      else if ref.ns = "" then .error "spec.secretRef must contain secret namespace"
      else .ok ()
  else .ok ()

def secretRefIndexKey (secretName secretNamespace : String) : String :=
  secretNamespace ++ "." ++ secretName

/-- The keys under which a state store is found; `none` when computing them follows a
nil pointer. -/
def secretRefIndex : (k : StateStoreKind) → StoreSpec k → Option (List String)
  | .git, spec =>
    (GitStateStoreSpec.secretRef spec).map fun ref => [secretRefIndexKey ref.name ref.ns]
  | .bucket, spec =>
    if BucketStateStoreSpec.authMethod spec = .accessKey then
      match BucketStateStoreSpec.validateSecretRef spec with
      | .error _ => some []
      | .ok () =>
        (BucketStateStoreSpec.secretRef spec).map fun ref => [secretRefIndexKey ref.name ref.ns]
    else some []

/-! ### Reading and watching -/

inductive Call
  | get (k : Kind) (ns name : String)
  /-- List the state stores that the index on the secret reference has under the key. -/
  | listMatching (k : StateStoreKind) (key : String)

abbrev signature : Signature where
  Call := Call
  Answer
    | .get k _ _ => Except ApiError (scheme.Obj k)
    | .listMatching k _ => Except ApiError (List (StateStore k))

abbrev Prog (α : Type) := Program signature α

def get (k : Kind) (ns name : String) : Prog (Except ApiError (scheme.Obj k)) :=
  Program.perform (S := signature) (.get k ns name)

def listMatching (k : StateStoreKind) (key : String) :
    Prog (Except ApiError (List (StateStore k))) :=
  Program.perform (S := signature) (.listMatching k key)

def indexed (k : StateStoreKind) (key : String) (store : StateStore k) : Bool :=
  (secretRefIndex k store.spec).any (·.contains key)

/-- The calls only read, and each of them is answered. -/
def served : Handler signature (Cluster scheme)
  | .get k ns name, c, r, t => r = (serve (S := scheme) (.get k ns name) c).1 ∧ t = c
  | .listMatching k key, c, r, t =>
    r = .ok ((c.objects (.stateStore k)).filter (indexed k key)) ∧ t = c

def fetchObjectAndSecret (k : StateStoreKind) (stateStoreRef : String) :
    Prog (Except Failure (Option Secret)) := do
  match ← get (.stateStore k) "" stateStoreRef with
  | .error e => return .error (.api e)
  | .ok stateStore =>
    match getSecretRef k stateStore.spec with
    | none => return .ok none
    | some ref =>
      let ns := if ref.ns = "" then "default" else ref.ns
      match ← get .secret ns ref.name with
      | .ok secret => return .ok (some secret)
      | .error .notFound =>
        return .error (.message
          ("secret \"" ++ ref.name ++ "\" not found in namespace \"" ++ ns ++ "\""))
      | .error e => return .error (.api e)

/-- The namespaces and names of the state stores to reconcile after a change of the Secret. -/
def constructRequestsForStateStoresReferencingSecret (k : StateStoreKind) (secret : ObjectMeta) :
    Prog (List (String × String)) := do
  match ← listMatching k (secretRefIndexKey secret.name secret.ns) with
  | .error _ => return []
  | .ok items => return items.map Object.key

section

variable {k : StateStoreKind} {c : Cluster scheme} {store : StateStore k} {secret : Secret}
  {ref : SecretReference}

/-- A change of the Secret has the state store reconciled. -/
def Enqueues (c : Cluster scheme) (secret : Secret) (k : StateStoreKind) (store : StateStore k) :
    Prop :=
  ∃ requests, Exec served (constructRequestsForStateStoresReferencingSecret k secret.metadata) c
    requests c ∧ store.key ∈ requests

/-- The writer of the state store gets its credentials from the Secret. -/
def Uses (c : Cluster scheme) (secret : Secret) (k : StateStoreKind) (store : StateStore k) :
    Prop :=
  credentialKeys k store.spec ≠ [] ∧
    Exec served (fetchObjectAndSecret k store.metadata.name) c (.ok (some secret)) c

def SecretReference.effectiveNamespace (ref : SecretReference) : String :=
  if ref.ns = "" then "default" else ref.ns

theorem exec_listMatching {key : String} {r : Except ApiError (List (StateStore k))}
    {t : Cluster scheme} : Exec served (listMatching k key) c r t ↔
      r = .ok ((c.objects (.stateStore k)).filter (indexed k key)) ∧ t = c :=
  exec_perform

theorem exec_get {kind : Kind} {ns name : String} {r : Except ApiError (scheme.Obj kind)}
    {t : Cluster scheme} : Exec served (get kind ns name) c r t ↔
      r = (serve (S := scheme) (.get kind ns name) c).1 ∧ t = c :=
  exec_perform

theorem serve_get_ok {kind : Kind} {ns name : String} {o : scheme.Obj kind} :
    (serve (S := scheme) (.get kind ns name) c).1 = .ok o ↔ c.find kind (ns, name) = some o := by
  simp only [serve]
  cases c.find kind (ns, name) <;> simp

theorem enqueues_iff (hstore : store ∈ c.objects (.stateStore k)) :
    Enqueues c secret k store ↔
      indexed k (secretRefIndexKey secret.metadata.name secret.metadata.ns) store = true := by
  have hexec : ∀ requests, Exec served
      (constructRequestsForStateStoresReferencingSecret k secret.metadata) c requests c ↔
      requests = ((c.objects (.stateStore k)).filter
        (indexed k (secretRefIndexKey secret.metadata.name secret.metadata.ns))).map
          Object.key := by
    intro requests
    simp only [constructRequestsForStateStoresReferencingSecret, exec_bind, exec_listMatching]
    constructor
    · rintro ⟨_, _, ⟨rfl, rfl⟩, hr⟩
      exact hr.1
    · rintro rfl
      exact ⟨_, _, ⟨rfl, rfl⟩, rfl, rfl⟩
  simp only [Enqueues, hexec, exists_eq_left, List.mem_map, List.mem_filter]
  constructor
  · rintro ⟨other, ⟨hother, hindexed⟩, hkey⟩
    rwa [c.eq_of_key hother hstore hkey] at hindexed
  · exact fun hindexed => ⟨store, ⟨hstore, hindexed⟩, rfl⟩

theorem uses_iff (hstore : store ∈ c.objects (.stateStore k)) (hns : store.metadata.ns = "")
    (hsecret : secret ∈ c.objects .secret) (href : getSecretRef k store.spec = some ref) :
    Uses c secret k store ↔ credentialKeys k store.spec ≠ [] ∧
      secret.key = (ref.effectiveNamespace, ref.name) := by
  have hfind :
      (serve (S := scheme) (.get (.stateStore k) "" store.metadata.name) c).1 = .ok store := by
    rw [serve_get_ok, c.find_eq_some]
    exact ⟨hstore, by rw [Object.key, hns]⟩
  have hget : Exec served (fetchObjectAndSecret k store.metadata.name) c (.ok (some secret)) c ↔
      (serve (S := scheme) (.get .secret ref.effectiveNamespace ref.name) c).1 = .ok secret := by
    simp only [fetchObjectAndSecret, exec_bind, exec_get]
    constructor
    · rintro ⟨_, _, ⟨rfl, rfl⟩, hrest⟩
      rw [hfind] at hrest
      simp only [href, exec_bind, exec_get] at hrest
      obtain ⟨r, _, ⟨hr, rfl⟩, hrest⟩ := hrest
      rw [SecretReference.effectiveNamespace, ← hr]
      rcases r with (_ | _ | _ | _ | _) | found
      case ok =>
        obtain rfl := Option.some.inj (Except.ok.inj hrest.1)
        rfl
      all_goals cases hrest.1
    · intro hr
      refine ⟨_, _, ⟨rfl, rfl⟩, ?_⟩
      rw [hfind]
      simp only [href, exec_bind, exec_get]
      exact ⟨_, _, ⟨hr.symm, rfl⟩, rfl, rfl⟩
  rw [Uses, hget, serve_get_ok, c.find_eq_some, and_iff_right hsecret]

/-! ### Names -/

def isNamespaceName (cs : List Char) : Bool := decide (cs.length ≤ 63) && isDnsLabel cs

def isSecretName (cs : List Char) : Bool := isDnsSubdomain cs

/-- The Secret has a namespace and a name that the server accepts. -/
def IsSecretKey (ns name : List Char) : Prop := isNamespaceName ns = true ∧ isSecretName name = true

instance (ns name : List Char) : Decidable (IsSecretKey ns name) :=
  inferInstanceAs (Decidable (_ ∧ _))

theorem IsSecretKey.dot_notMem {ns name : List Char} (h : IsSecretKey ns name) : '.' ∉ ns := by
  intro hdot
  have hns := h.1
  simp only [isNamespaceName, isDnsLabel, Bool.and_eq_true, List.all_eq_true] at hns
  exact absurd (hns.2.2 '.' hdot) (by decide)

theorem IsSecretKey.ns_ne_nil {ns name : List Char} (h : IsSecretKey ns name) : ns ≠ [] := by
  rintro rfl
  exact absurd h.1 (by decide)

theorem isSecretName_append {cs name : List Char} (h : isSecretName (cs ++ '.' :: name) = true) :
    name ≠ [] := by
  rintro rfl
  simp only [isSecretName, isDnsSubdomain, List.splitOn, Bool.and_eq_true, List.all_eq_true] at h
  rw [List.splitOnP_append_cons _ _ (by decide)] at h
  exact absurd (h.2 [] (List.mem_append_right _ (List.mem_cons_self ..))) (by decide)

theorem append_dot_inj {ns name ns' name' : List Char} (hns : '.' ∉ ns) (hns' : '.' ∉ ns')
    (h : ns ++ '.' :: name = ns' ++ '.' :: name') : ns = ns' ∧ name = name' := by
  induction ns generalizing ns' with
  | nil =>
    cases ns' with
    | nil => exact ⟨rfl, (List.cons.inj h).2⟩
    | cons c ns' =>
      obtain ⟨rfl, -⟩ := List.cons.inj h
      exact absurd (List.mem_cons_self ..) hns'
  | cons c ns ih =>
    cases ns' with
    | nil =>
      obtain ⟨rfl, -⟩ := List.cons.inj h
      exact absurd (List.mem_cons_self ..) hns
    | cons d ns' =>
      obtain ⟨rfl, hrest⟩ := List.cons.inj h
      obtain ⟨rfl, rfl⟩ := ih (fun hm => hns (List.mem_cons_of_mem _ hm))
        (fun hm => hns' (List.mem_cons_of_mem _ hm)) hrest
      exact ⟨rfl, rfl⟩

theorem exists_eq_append_dot {cs : List Char} (h : '.' ∈ cs) :
    cs = cs.takeWhile (· ≠ '.') ++ '.' :: (cs.dropWhile (· ≠ '.')).tail := by
  induction cs with
  | nil => simp at h
  | cons c cs ih =>
    by_cases hc : c = '.'
    · simp [hc]
    · have hcs : '.' ∈ cs := by simpa [Ne.symm hc] using h
      simp only [List.takeWhile_cons, List.dropWhile_cons, ne_eq, hc, not_false_eq_true,
        decide_true, if_true, List.cons_append]
      exact congrArg (c :: ·) (ih hcs)

theorem dot_notMem_takeWhile (cs : List Char) : '.' ∉ cs.takeWhile (· ≠ '.') := by
  intro h
  simpa using List.mem_takeWhile_imp h

namespace SecretReference

variable (ref)

/-- A Secret can have the namespace and the name that are read. -/
def MayExist : Prop := IsSecretKey ref.effectiveNamespace.toList ref.name.toList

/-- The namespace has a dot, and a Secret whose namespace is the part before the dot has
the key of the reference. -/
def IsMisread : Prop :=
  '.' ∈ ref.ns.toList ∧ IsSecretKey (ref.ns.toList.takeWhile (· ≠ '.'))
    ((ref.ns.toList.dropWhile (· ≠ '.')).tail ++ '.' :: ref.name.toList)

instance : Decidable ref.MayExist := inferInstanceAs (Decidable (IsSecretKey _ _))

instance : Decidable ref.IsMisread := inferInstanceAs (Decidable (_ ∧ _))

def indexKey : String := secretRefIndexKey ref.name ref.ns

theorem toList_indexKey : ref.indexKey.toList = ref.ns.toList ++ '.' :: ref.name.toList := by
  simp [indexKey, secretRefIndexKey]

variable {ref}

theorem effectiveNamespace_of_ne (h : ref.ns ≠ "") : ref.effectiveNamespace = ref.ns := if_neg h

end SecretReference

theorem key_eq_iff : secretRefIndexKey secret.metadata.name secret.metadata.ns = ref.indexKey ↔
      secret.metadata.ns.toList ++ '.' :: secret.metadata.name.toList =
        ref.ns.toList ++ '.' :: ref.name.toList := by
  rw [← String.toList_inj, ref.toList_indexKey]
  simp [secretRefIndexKey]

theorem key_ne_of_ns_eq (hkey : IsSecretKey secret.metadata.ns.toList secret.metadata.name.toList)
    (hns : ref.ns = "") :
    secretRefIndexKey secret.metadata.name secret.metadata.ns ≠ ref.indexKey := by
  rw [ne_eq, key_eq_iff, hns]
  intro h
  exact hkey.ns_ne_nil (append_dot_inj hkey.dot_notMem (by simp) h).1

theorem secret_key_eq_iff
    (hkey : IsSecretKey secret.metadata.ns.toList secret.metadata.name.toList)
    (hns : ref.ns ≠ "") (hread : ¬ ref.IsMisread) :
    secretRefIndexKey secret.metadata.name secret.metadata.ns = ref.indexKey ↔
      secret.key = (ref.effectiveNamespace, ref.name) := by
  rw [key_eq_iff, ref.effectiveNamespace_of_ne hns, Object.key, Prod.mk.injEq,
    ← String.toList_inj, ← String.toList_inj]
  constructor
  · intro h
    by_cases hdot : '.' ∈ ref.ns.toList
    · rw [exists_eq_append_dot hdot, List.append_assoc, List.cons_append] at h
      obtain ⟨hns', hname'⟩ := append_dot_inj hkey.dot_notMem (dot_notMem_takeWhile _) h
      rw [hns', hname'] at hkey
      exact absurd ⟨hdot, hkey⟩ hread
    · exact append_dot_inj hkey.dot_notMem hdot h
  · rintro ⟨hns', hname'⟩
    rw [hns', hname']

/-! ### The index agrees with the reads -/

/-- Whether the index looks at the references of state stores with this specification. -/
def isIndexed : (k : StateStoreKind) → StoreSpec k → Bool
  | .git, _ => true
  | .bucket, spec => BucketStateStoreSpec.authMethod spec = .accessKey

theorem indexed_iff (href : getSecretRef k store.spec = some ref) (key : String) :
    indexed k key store = true ↔ isIndexed k store.spec = true ∧ key = ref.indexKey ∧
      (k = .bucket → ref.name ≠ "" ∧ ref.ns ≠ "") := by
  cases k with
  | git =>
    have href' : GitStateStoreSpec.secretRef store.spec = some ref := href
    simp [indexed, secretRefIndex, isIndexed, href', SecretReference.indexKey]
  | bucket =>
    have href' : BucketStateStoreSpec.secretRef store.spec = some ref := href
    by_cases hauth : BucketStateStoreSpec.authMethod store.spec = .accessKey
    · by_cases hname : ref.name = ""
      · simp [indexed, secretRefIndex, BucketStateStoreSpec.validateSecretRef, hauth, href', hname]
      · by_cases hns : ref.ns = ""
        · simp [indexed, secretRefIndex, BucketStateStoreSpec.validateSecretRef, hauth, href',
            hname, hns]
        · simp [indexed, secretRefIndex, BucketStateStoreSpec.validateSecretRef, hauth, href',
            hname, hns, isIndexed, SecretReference.indexKey]
    · simp [indexed, secretRefIndex, hauth, isIndexed]

/-- In every cluster, a change of a Secret has the state store reconciled exactly if the
state store uses this Secret. -/
def SecretWatched (k : StateStoreKind) (store : StateStore k) : Prop :=
  ∀ (c : Cluster scheme) (secret : Secret), store ∈ c.objects (.stateStore k) →
    secret ∈ c.objects .secret →
    IsSecretKey secret.metadata.ns.toList secret.metadata.name.toList →
    (Enqueues c secret k store ↔ Uses c secret k store)

/-- What a reference has to be like to be watched: if the index has the state store under
a key with a namespace, the key is not read as that of another Secret; otherwise there are no
credentials, or no Secret can be meant. -/
def Covered (k : StateStoreKind) (spec : StoreSpec k) (ref : SecretReference) : Prop :=
  if isIndexed k spec = true ∧ ref.ns ≠ "" then ¬ ref.IsMisread
  else credentialKeys k spec = [] ∨ ¬ ref.MayExist

instance (k : StateStoreKind) (spec : StoreSpec k) (ref : SecretReference) :
    Decidable (Covered k spec ref) :=
  inferInstanceAs (Decidable (ite _ _ _))

theorem credentialKeys_of_isIndexed {spec : StoreSpec k} (h : isIndexed k spec = true) :
    credentialKeys k spec ≠ [] := by
  cases k with
  | git => cases hauth : GitStateStoreSpec.authMethod spec <;> simp [credentialKeys, hauth]
  | bucket =>
    have hauth : BucketStateStoreSpec.authMethod spec = .accessKey := by simpa [isIndexed] using h
    simp [credentialKeys, hauth]

end

/-- A cluster with one state store and one Secret. -/
def pairCluster {k : StateStoreKind} (held : StateStore k) (hlabels : held.metadata.labels.Valid)
    (ns name : String) : Cluster scheme :=
  .ofOptions (fun kind => match kind with
      | .secret => some ⟨{ ns := ns, name := name }, ∅, ()⟩
      | .stateStore k' => if h : k' = k then some (h ▸ held) else none)
    (held.created + 1)
    (by
      rintro (k' | _) o ho
      · dsimp only at ho
        split at ho
        · next h =>
          subst h
          cases ho
          exact hlabels
        · cases ho
      · cases ho
        exact Labels.valid_empty)
    (by
      rintro (k' | _) o ho
      · dsimp only at ho
        split at ho
        · next h =>
          subst h
          cases ho
          exact Nat.lt_succ_self _
        · cases ho
      · cases ho
        exact Nat.succ_pos _)

section

variable {k : StateStoreKind} {store : StateStore k} {ref : SecretReference}

theorem mem_store_pairCluster (hlabels : store.metadata.labels.Valid) (ns name : String) :
    store ∈ (pairCluster store hlabels ns name).objects (.stateStore k) := by
  simp [pairCluster, Cluster.ofOptions]

theorem mem_secret_pairCluster (hlabels : store.metadata.labels.Valid) (ns name : String) :
    (⟨{ ns := ns, name := name }, ∅, ()⟩ : Secret) ∈
      (pairCluster store hlabels ns name).objects .secret := by
  simp [pairCluster, Cluster.ofOptions]

theorem covered_of_watched (hlabels : store.metadata.labels.Valid) (hns : store.metadata.ns = "")
    (href : getSecretRef k store.spec = some ref) (hw : SecretWatched k store) :
    Covered k store.spec ref := by
  -- a Secret that refutes the condition is put into a cluster with the state store
  have hpair : ∀ (ns name : String), IsSecretKey ns.toList name.toList →
      ((isIndexed k store.spec = true ∧ secretRefIndexKey name ns = ref.indexKey ∧
        (k = .bucket → ref.name ≠ "" ∧ ref.ns ≠ "")) ↔
          credentialKeys k store.spec ≠ [] ∧
            (ns, name) = (ref.effectiveNamespace, ref.name)) := by
    intro ns name hkey
    have hstore := mem_store_pairCluster hlabels ns name
    have hsecret := mem_secret_pairCluster hlabels ns name
    have h := hw _ _ hstore hsecret hkey
    rwa [enqueues_iff hstore, indexed_iff href, uses_iff hstore hns hsecret href] at h
  unfold Covered
  split
  · next hindexed =>
    rintro ⟨hdot, hkey⟩
    have h := hpair (String.ofList (ref.ns.toList.takeWhile (· ≠ '.')))
      (String.ofList ((ref.ns.toList.dropWhile (· ≠ '.')).tail ++ '.' :: ref.name.toList))
      (by simpa only [String.toList_ofList] using hkey)
    have hname : ref.name ≠ "" := by
      intro hname
      exact isSecretName_append hkey.2 (by rw [hname]; rfl)
    obtain ⟨-, hread⟩ := h.mp ⟨hindexed.1, by
      rw [← String.toList_inj, ref.toList_indexKey]
      conv_rhs => rw [exists_eq_append_dot hdot]
      simp [secretRefIndexKey], fun _ => ⟨hname, hindexed.2⟩⟩
    -- the namespace that is read has a dot, and that of the Secret has none
    rw [ref.effectiveNamespace_of_ne hindexed.2] at hread
    have hns' := congrArg String.toList (Prod.mk.inj hread).1
    rw [String.toList_ofList] at hns'
    exact dot_notMem_takeWhile _ (hns'.symm ▸ hdot)
  · next hindexed =>
    rw [or_iff_not_imp_left]
    intro hcreds hmay
    obtain ⟨hauth, heq, -⟩ := (hpair _ _ hmay).mpr ⟨hcreds, rfl⟩
    have hempty : ref.ns = "" := by
      by_contra hne
      exact hindexed ⟨hauth, hne⟩
    exact @key_ne_of_ns_eq ⟨{ ns := ref.effectiveNamespace, name := ref.name }, ∅, ()⟩ ref hmay
      hempty heq

theorem watched_of_covered (hns : store.metadata.ns = "")
    (href : getSecretRef k store.spec = some ref) (hc : Covered k store.spec ref) :
    SecretWatched k store := by
  intro c secret hstore hsecret hkey
  rw [enqueues_iff hstore, indexed_iff href, uses_iff hstore hns hsecret href]
  unfold Covered at hc
  split at hc
  · next hindexed =>
    rw [secret_key_eq_iff hkey hindexed.2 hc]
    constructor
    · exact fun h => ⟨credentialKeys_of_isIndexed hindexed.1, h.2.1⟩
    · rintro ⟨-, hread⟩
      refine ⟨hindexed.1, hread, fun _ => ⟨fun hname => ?_, hindexed.2⟩⟩
      have hname' : secret.metadata.name = "" := (Prod.mk.inj hread).2.trans hname
      rw [hname'] at hkey
      exact absurd hkey.2 (by decide)
  · next hindexed =>
    constructor
    · rintro ⟨hauth, heq, -⟩
      have hempty : ref.ns = "" := by
        by_contra hne
        exact hindexed ⟨hauth, hne⟩
      exact absurd heq (key_ne_of_ns_eq hkey hempty)
    · rintro ⟨hcreds, hread⟩
      obtain ⟨hns', hname'⟩ := Prod.mk.inj hread
      rw [hns', hname'] at hkey
      exact absurd hkey (hc.resolve_left hcreds)

end

/-- A state store with a secret reference is reconciled after the changes of the Secret it
uses and of no other one, exactly if the reference is covered. -/
theorem secret_watched_iff {k : StateStoreKind} (store : StateStore k) {ref : SecretReference}
    (hlabels : store.metadata.labels.Valid) (hns : store.metadata.ns = "")
    (href : getSecretRef k store.spec = some ref) :
    SecretWatched k store ↔ Covered k store.spec ref :=
  ⟨covered_of_watched hlabels hns href, watched_of_covered hns href⟩

/-- A GitStateStore whose reference has no namespace. -/
def defaultedStore : StateStore .git :=
  ⟨{ name := "store" }, ⟨some { name := "credentials" }, .basicAuth⟩, ()⟩

/-- The Secret that is used is looked for under another key. -/
theorem default_namespace_not_watched :
    ∃ (c : Cluster scheme) (secret : Secret), defaultedStore ∈ c.objects (.stateStore .git) ∧
      secret ∈ c.objects .secret ∧ secret.key = ("default", "credentials") ∧
      Uses c secret .git defaultedStore ∧ ¬ Enqueues c secret .git defaultedStore := by
  have hlabels : defaultedStore.metadata.labels.Valid := Labels.valid_empty
  have hstore := mem_store_pairCluster hlabels "default" "credentials"
  have hsecret := mem_secret_pairCluster hlabels "default" "credentials"
  have href : getSecretRef .git defaultedStore.spec = some { name := "credentials" } := rfl
  refine ⟨_, _, hstore, hsecret, rfl, ?_, ?_⟩
  · rw [uses_iff hstore rfl hsecret href]
    exact ⟨by decide, rfl⟩
  · rw [enqueues_iff hstore]
    decide

def explicitStore : StateStore .bucket :=
  ⟨{ name := "store" }, ⟨some { name := "credentials", ns := "kratix" }, .accessKey⟩, ()⟩

theorem secret_watched_iff_sample :
    SecretWatched .bucket explicitStore ∧ ¬ SecretWatched .git defaultedStore :=
  ⟨(secret_watched_iff explicitStore Labels.valid_empty rfl rfl).mpr (by decide),
    fun h => absurd ((secret_watched_iff defaultedStore Labels.valid_empty rfl rfl).mp h)
      (by decide)⟩

end Kratix.StateStores
