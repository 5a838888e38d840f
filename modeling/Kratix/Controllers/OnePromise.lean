import Kratix.Controllers.PromiseRelease

/-!
# One Promise for each release

The controller knows the Promise of a release by a label, while the name under which
it is stored comes from the fetched document. As long as the documents keep the name
of the Promise that carries the label, there is at most one such Promise at every
moment, and one at the right version when the controller reports Installed. A document
with another name is installed beside the Promise that is there.
-/

namespace Kratix.PromiseReleases

open Apiserver Effect

/-- Calls to the API server may fail. A fetch fails, or it brings a document that may be
served at this moment. -/
def fetching (serves : Cluster scheme → Promise → Prop) : Handler signature (Cluster scheme)
  | .api call, c, r, t => MayFail call c r t
  | .fromURL _ _, c, r, t => t = c ∧ ∀ promise, r = .ok promise → serves c promise

/-- The Promise has the label with the name of the release. -/
def Carries (name : String) (promise : Promise) : Prop :=
  promise.metadata.labels.lookup promiseReleaseNameLabel = some name

def AtMostOne (name : String) (c : Cluster scheme) : Prop :=
  ∀ p ∈ c.objects .promise, ∀ q ∈ c.objects .promise, Carries name p → Carries name q → p = q

/-- The document has the name of every Promise that carries the label. -/
def NameKept (name : String) (c : Cluster scheme) (document : Promise) : Prop :=
  ∀ p ∈ c.objects .promise, Carries name p → p.key = ("", document.metadata.name)

/-- The version of the release, if it is there. -/
def HasVersion (name version : String) (c : Cluster scheme) : Prop :=
  ∀ release ∈ c.objects .promiseRelease, release.key = ("", name) → release.spec.version = version

/-- Exactly one Promise carries the label, and its version is that of the release. -/
def InstalledOnce (name : String) (c : Cluster scheme) : Prop :=
  ∃ p ∈ c.objects .promise, Carries name p ∧
    (∀ q ∈ c.objects .promise, Carries name q → q = p) ∧
    ∃ version, p.metadata.labels.lookup Label.promiseVersion = some version ∧
      HasVersion name version c

/-- No Promise stays behind that is marked for deletion and has no finalizer. -/
def Standing (c : Cluster scheme) : Prop := ∀ p ∈ c.objects .promise, p.settle = some p

/-- What others do: they may change the releases, and the Promises too, but they give no
Promise the label and leave the versions of those that carry it. -/
structure OthersAct (name : String) (s t : Cluster scheme) : Prop where
  carried : ∀ p ∈ t.objects .promise, Carries name p → ∃ q ∈ s.objects .promise,
    Carries name q ∧ q.key = p.key ∧
      p.metadata.labels.lookup Label.promiseVersion = q.metadata.labels.lookup Label.promiseVersion
  standing : Standing s → Standing t

/-- Nobody touches a Promise or the version of the release. -/
structure Quiet (name : String) (s t : Cluster scheme) : Prop where
  promises : t.objects .promise = s.objects .promise
  version : ∀ version, HasVersion name version s → HasVersion name version t

/-- The invariant: at most one Promise carries the label, with a version. -/
structure Consistent (name : String) (c : Cluster scheme) : Prop where
  unique : AtMostOne name c
  versioned : ∀ p ∈ c.objects .promise, Carries name p →
    ∃ version, version ≠ "" ∧ p.metadata.labels.lookup Label.promiseVersion = some version
  standing : Standing c

variable {name : String} {s t u : Cluster scheme}

/-! ### The surroundings -/

theorem OthersAct.refl (s : Cluster scheme) : OthersAct name s s :=
  ⟨fun p hp hc => ⟨p, hp, hc, rfl, rfl⟩, id⟩

theorem OthersAct.trans (h : OthersAct name s t) (h' : OthersAct name t u) :
    OthersAct name s u := by
  refine ⟨fun p hp hc => ?_, fun hs => h'.standing (h.standing hs)⟩
  obtain ⟨q, hq, hcq, hkq, hvq⟩ := h'.carried p hp hc
  obtain ⟨r, hr, hcr, hkr, hvr⟩ := h.carried q hq hcq
  exact ⟨r, hr, hcr, hkr.trans hkq, hvq.trans hvr⟩

theorem othersAct_of_promises (h : t.objects .promise = s.objects .promise) :
    OthersAct name s t := by
  refine ⟨fun p hp hc => ⟨p, h ▸ hp, hc, rfl, rfl⟩, fun hs p hp => hs p (h ▸ hp)⟩

theorem Quiet.refl (s : Cluster scheme) : Quiet name s s := ⟨rfl, fun _ => id⟩

theorem Quiet.trans (h : Quiet name s t) (h' : Quiet name t u) : Quiet name s u :=
  ⟨h'.promises.trans h.promises, fun v hv => h'.version v (h.version v hv)⟩

theorem Quiet.othersAct (h : Quiet name s t) : OthersAct name s t :=
  othersAct_of_promises h.promises

theorem NameKept.others {document : Promise} (h : NameKept name s document)
    (ho : OthersAct name s t) : NameKept name t document := by
  intro p hp hc
  obtain ⟨q, hq, hcq, hkey, -⟩ := ho.carried p hp hc
  exact hkey ▸ h q hq hcq

theorem Consistent.others (h : Consistent name s) (ho : OthersAct name s t) :
    Consistent name t where
  unique := by
    intro p hp q hq hcp hcq
    obtain ⟨p', hp', hcp', hkp, -⟩ := ho.carried p hp hcp
    obtain ⟨q', hq', hcq', hkq, -⟩ := ho.carried q hq hcq
    have heq : p' = q' := h.unique p' hp' q' hq' hcp' hcq'
    refine t.eq_of_key hp hq ?_
    rw [← hkp, ← hkq, heq]
  versioned := by
    intro p hp hc
    obtain ⟨q, hq, hcq, -, hv⟩ := ho.carried p hp hc
    rw [hv]
    exact h.versioned q hq hcq
  standing := ho.standing h.standing

/-- Others act at any time; when they are quiet, they do not touch what matters. -/
structure Surroundings (name : String) (quiet : Prop)
    (R : Cluster scheme → Cluster scheme → Prop) : Prop where
  refl : ∀ s, R s s
  trans : ∀ s t u, R s t → R t u → R s u
  others : ∀ s t, R s t → OthersAct name s t
  quiet : quiet → ∀ s t, R s t → Quiet name s t

theorem surroundings_othersAct : Surroundings name False (OthersAct name) :=
  ⟨.refl, fun _ _ _ => .trans, fun _ _ => id, fun h => h.elim⟩

theorem surroundings_quiet : Surroundings name True (Quiet name) :=
  ⟨.refl, fun _ _ _ => .trans, fun _ _ => Quiet.othersAct, fun _ _ _ => id⟩

/-- The program keeps the invariant with each call, and ends with `Q`. -/
abbrev Safe {α : Type} (name : String) (R : Cluster scheme → Cluster scheme → Prop)
    (Q : α → Cluster scheme → Prop) : Prog α → Cluster scheme → Prop :=
  Within (fetching (NameKept name)) R (fun _ s t => Consistent name s → Consistent name t) Q

/-- The invariant, and `F` when the others are quiet. -/
def Holds (name : String) (quiet : Prop) (F : Cluster scheme → Prop) (c : Cluster scheme) : Prop :=
  Consistent name c ∧ (quiet → F c)

/-! ### Calls that leave the Promises alone -/

def Harmless : Call → Prop
  | .api call => ¬ call.Writes Kind.promise ∧
      (¬ call.Writes Kind.promiseRelease ∨ ∃ o, call = .updateStatus .promiseRelease o)
  | .fromURL _ _ => True

/-- Calls that at most delete a Promise. -/
def Modest : Call → Prop
  | .api call => ¬ call.Writes Kind.promise ∨ ∃ ns n, call = .delete .promise ns n
  | .fromURL _ _ => True

section

variable {call : ApiCall scheme} {r : Except ApiError call.Result}

theorem promises_of_not_writes (hw : ¬ call.Writes Kind.promise) (h : MayFail call s r t) :
    t.objects .promise = s.objects .promise := by
  rcases h.cluster with rfl | rfl
  · rfl
  · exact serve_of_not_writes hw s

theorem hasVersion_updateStatus {o : PromiseRelease} {version : String}
    (h : HasVersion name version s) :
    HasVersion name version (serve (S := scheme) (.updateStatus .promiseRelease o) s).2 := by
  cases hfind : s.find .promiseRelease o.key with
  | none =>
    rw [(serve_of_missing hfind).2.1 o rfl]
    exact h
  | some stored =>
    have hrep := (serve_updateStatus hfind).2
    intro release hrelease hkey
    rcases (hrep.mem release).mp hrelease with ⟨hold, -⟩ | hnew
    · exact h release hold hkey
    · have hstored : release.key = stored.key := (hrep.key release hnew).1
      obtain rfl := Option.some.inj hnew
      exact h stored hrep.stored_mem (hstored ▸ hkey)

end

theorem quiet_of_harmless {c : Call} {r : signature.Answer c} {serves} (hc : Harmless c)
    (h : fetching serves c s r t) : Quiet name s t := by
  cases c with
  | fromURL url authHeader =>
    obtain ⟨rfl, -⟩ := h
    exact .refl _
  | api call =>
    refine ⟨promises_of_not_writes hc.1 h, fun version hversion => ?_⟩
    rcases MayFail.cluster h with rfl | rfl
    · exact hversion
    · rcases hc.2 with hw | ⟨o, rfl⟩
      · intro release hrelease hkey
        rw [serve_of_not_writes hw s] at hrelease
        exact hversion release hrelease hkey
      · exact hasVersion_updateStatus hversion

theorem settle_settle {p p' : Promise} (h : p.settle = some p') : p'.settle = some p' := by
  obtain rfl := Object.settle_eq_some h
  exact h

theorem othersAct_delete {ns n : String} :
    OthersAct name s (serve (S := scheme) (.delete .promise ns n) s).2 := by
  cases hfind : s.find .promise (ns, n) with
  | none =>
    rw [(serve_of_missing hfind).2.2]
    exact .refl s
  | some stored =>
    have hrep := (serve_delete_stored hfind).2
    constructor
    · intro p hp hc
      rcases (hrep.mem p).mp hp with ⟨hold, -⟩ | hnew
      · exact ⟨p, hold, hc, rfl, rfl⟩
      · obtain rfl := Object.settle_eq_some hnew
        exact ⟨stored, hrep.stored_mem, hc, rfl, rfl⟩
    · intro hs p hp
      rcases (hrep.mem p).mp hp with ⟨hold, -⟩ | hnew
      · exact hs p hold
      · exact settle_settle hnew

theorem othersAct_of_modest {c : Call} {r : signature.Answer c} {serves} (hc : Modest c)
    (h : fetching serves c s r t) : OthersAct name s t := by
  cases c with
  | fromURL url authHeader =>
    obtain ⟨rfl, -⟩ := h
    exact .refl _
  | api call =>
    rcases hc with hw | ⟨ns, n, rfl⟩
    · exact othersAct_of_promises (promises_of_not_writes hw h)
    · rcases MayFail.cluster h with rfl | rfl
      · exact .refl _
      · exact othersAct_delete

/-! ### Programs under interference -/

section

variable {quiet : Prop} {R : Cluster scheme → Cluster scheme → Prop} {α : Type}
  {F : Cluster scheme → Prop}

/-- What stays when nobody touches a Promise or the version of the release. -/
def Lasting (name : String) (F : Cluster scheme → Prop) : Prop :=
  ∀ s t, Quiet name s t → F s → F t

theorem lasting_hasVersion (version : String) : Lasting name (HasVersion name version) :=
  fun _ _ h => h.version version

theorem lasting_of_promises {P : List Promise → Prop} :
    Lasting name fun c => P (c.objects .promise) := by
  intro s t h hs
  rw [h.promises]
  exact hs

theorem Lasting.and {F' : Cluster scheme → Prop} (h : Lasting name F) (h' : Lasting name F') :
    Lasting name fun c => F c ∧ F' c :=
  fun s t hq hs => ⟨h s t hq hs.1, h' s t hq hs.2⟩

theorem Holds.after_quiet (hF : Lasting name F) (h : Holds name quiet F s)
    (hst : Quiet name s t) : Holds name quiet F t :=
  ⟨h.1.others hst.othersAct, fun hq => hF s t hst (h.2 hq)⟩

theorem Holds.after_others (hR : Surroundings name quiet R) (hF : Lasting name F)
    (h : Holds name quiet F s) (hst : R s t) : Holds name quiet F t :=
  ⟨h.1.others (hR.others s t hst), fun hq => hF s t (hR.quiet hq s t hst) (h.2 hq)⟩

theorem safe_of_harmless (hR : Surroundings name quiet R) (hF : Lasting name F) {p : Prog α}
    (hp : p.Calls Harmless) (hs : Holds name quiet F s) :
    Safe name R (fun _ => Holds name quiet F) p s := by
  refine within_of_calls (fun s t hst h => h.after_others hR hF hst) ?_ hp hs
  intro c s r t hc h hcall
  have hq : Quiet name s t := quiet_of_harmless hc hcall
  exact ⟨fun hs => hs.others hq.othersAct, h.after_quiet hF hq⟩

theorem safe_of_modest (hR : Surroundings name quiet R) {p : Prog α} (hp : p.Calls Modest)
    (hs : Consistent name s) : Safe name R (fun _ => Consistent name) p s := by
  refine within_of_calls (fun s t hst h => h.others (hR.others s t hst)) ?_ hp hs
  intro c s r t hc h hcall
  have ho : OthersAct name s t := othersAct_of_modest hc hcall
  exact ⟨fun hs => hs.others ho, h.others ho⟩

theorem safe_api {call : ApiCall scheme} {I : Cluster scheme → Prop}
    {M : Except ApiError call.Result → Cluster scheme → Prop} (hI : ∀ s t, R s t → I s → I t)
    (hM : ∀ r s t, R s t → M r s → M r t)
    (hcall : ∀ s r t, I s → MayFail call s r t → (Consistent name s → Consistent name t) ∧ M r t)
    (hs : I s) : Safe name R M (api call) s := by
  intro t ht r u hu
  obtain ⟨hg, hm⟩ := hcall t r u (hI s t ht hs) hu
  exact ⟨hg, fun v hv => hM r u v hv hm⟩

theorem safe_read {call : ApiCall scheme} {I : Cluster scheme → Prop}
    {M : Except ApiError call.Result → Cluster scheme → Prop} (hI : ∀ s t, R s t → I s → I t)
    (hM : ∀ r s t, R s t → M r s → M r t) (hread : ∀ s, (serve call s).2 = s)
    (hcall : ∀ s r, I s → (∀ x, r = .ok x → (serve call s).1 = .ok x) → M r s)
    (hs : I s) : Safe name R M (api call) s := by
  refine safe_api hI hM (fun s r t h hmay => ?_) hs
  obtain rfl : t = s := by
    rcases hmay.cluster with h | h
    · exact h
    · exact h.trans (hread s)
  refine ⟨id, hcall t r h ?_⟩
  rintro x rfl
  rw [hmay.ok]

end

theorem Harmless.modest {c : Call} (h : Harmless c) : Modest c := by
  cases c with
  | api call => exact Or.inl h.1
  | fromURL url authHeader => trivial

theorem calls_updateStatusAndConditions (pr : PromiseRelease) (status message reason : String) :
    (updateStatusAndConditions pr status message reason).Calls Harmless := by
  unfold updateStatusAndConditions
  dsimp only
  split
  · exact calls_pure _
  · refine calls_bind (calls_perform.mpr ?_) fun _ => calls_pure _
    exact ⟨fun h => (by cases h), Or.inr ⟨_, rfl⟩⟩

theorem calls_deletePromises (promises : List Promise) :
    (deletePromises promises).Calls Modest := by
  induction promises with
  | nil => exact calls_pure _
  | cons promise promises ih =>
    unfold deletePromises
    split
    · exact ih
    · refine calls_bind (calls_perform.mpr (Or.inr ⟨_, _, rfl⟩)) fun r => ?_
      cases r with
      | error e => exact calls_pure _
      | ok _ => exact ih

theorem modest_update (o : PromiseRelease) : Modest (.api (.update .promiseRelease o)) :=
  Or.inl fun h => by cases h

theorem calls_delete (pr : PromiseRelease) : (delete pr).Calls Modest := by
  unfold delete
  split
  · exact calls_pure _
  · refine calls_bind (calls_perform.mpr (Or.inl id)) fun r => ?_
    rcases r with e | _ | ⟨promise, promises⟩
    · exact calls_pure _
    · refine calls_bind (calls_perform.mpr (modest_update _)) fun r => ?_
      cases r <;> exact calls_pure _
    · exact calls_deletePromises _

/-! ### Installing a document -/

/-- Some Promise carries the label at this version. -/
def PresentAt (name version : String) (promises : List Promise) : Prop :=
  ∃ p ∈ promises, Carries name p ∧ p.metadata.labels.lookup Label.promiseVersion = some version

/-- The Promise is what a release with this version makes of a document. -/
structure MadeFor (name version : String) (document new : Promise) : Prop where
  key : new.key = ("", document.metadata.name)
  carries : Carries name new
  version : new.metadata.labels.lookup Label.promiseVersion = some version

theorem madeFor_mutatePromise {pr : PromiseRelease} {document existing new : Promise}
    {version : String} (h : mutatePromise pr document existing = .ok new)
    (hkey : existing.key = ("", document.metadata.name))
    (hversion : document.metadata.labels.lookup Label.promiseVersion = some version) :
    MadeFor pr.metadata.name version document new ∧
      new.metadata.finalizers = existing.metadata.finalizers := by
  unfold mutatePromise setControllerReference at h
  split_ifs at h
  obtain rfl := Except.ok.inj h
  refine ⟨⟨hkey, ?_, ?_⟩, rfl⟩
  · exact AList.lookup_insert _
  · dsimp only
    rw [Labels.lookup_insert, if_neg (by decide), Labels.lookup_merge, hversion]
    rfl

/-- Every Promise was there, or it is made from the document. -/
def Installs (name version : String) (document : Promise) (s t : Cluster scheme) : Prop :=
  ∀ p ∈ t.objects .promise, p ∈ s.objects .promise ∨
    MadeFor name version document p ∧ p.settle = some p

theorem Consistent.installs {version : String} {document : Promise} (hs : Consistent name s)
    (hv : version ≠ "") (hname : NameKept name s document)
    (h : Installs name version document s t) : Consistent name t := by
  have hkey : NameKept name t document := by
    intro p hp hc
    rcases h p hp with hold | hnew
    · exact hname p hold hc
    · exact hnew.1.key
  refine ⟨fun p hp q hq hcp hcq => ?_, fun p hp hc => ?_, fun p hp => ?_⟩
  · exact t.eq_of_key hp hq ((hkey p hp hcp).trans (hkey q hq hcq).symm)
  · rcases h p hp with hold | hnew
    · exact hs.versioned p hold hc
    · exact ⟨version, hv, hnew.1.version⟩
  · rcases h p hp with hold | hnew
    · exact hs.standing p hold
    · exact hnew.2

section

variable {version : String} {document new : Promise} {r : Except ApiError Promise}

theorem installs_create (hnew : MadeFor name version document new)
    (h : MayFail (S := scheme) (.create .promise new) s r t) :
    Installs name version document s t ∧
      (∀ x, r = .ok x → PresentAt name version (t.objects .promise)) ∧
      ∀ v, HasVersion name v s → HasVersion name v t := by
  have hstay : Installs name version document s s := fun p hp => Or.inl hp
  rcases serve_create_cases (S := scheme) (k := Kind.promise) new s with ⟨e, hs⟩ | ⟨hok, hadds⟩
  · obtain ⟨rfl, hr⟩ := h.of_refused hs
    exact ⟨hstay, fun x hx => absurd hx (hr x), fun _ => id⟩
  · rcases h.of_served hok with ⟨rfl, hr⟩ | ⟨rfl, -⟩
    · exact ⟨hstay, fun x hx => absurd hx (hr x), fun _ => id⟩
    · refine ⟨fun p hp => ?_, fun x _ => ?_, fun v hv release hrelease => ?_⟩
      · rcases hadds.mem_iff.mp hp with hold | rfl
        · exact Or.inl hold
        · exact Or.inr ⟨⟨hnew.key, hnew.carries, hnew.version⟩, Object.settle_of_live rfl⟩
      · exact ⟨_, hadds.mem_iff.mpr (Or.inr rfl), hnew.carries, hnew.version⟩
      · rw [hadds.others .promiseRelease (by decide)] at hrelease
        exact hv release hrelease

theorem madeFor_accept {stored : Promise} (hnew : MadeFor name version document new)
    (hkey : stored.key = new.key) : MadeFor name version document (stored.accept new) :=
  ⟨hkey.trans hnew.key, hnew.carries, hnew.version⟩

theorem installs_update (hnew : MadeFor name version document new)
    (h : MayFail (S := scheme) (.update .promise new) s r t) :
    Installs name version document s t ∧
      (∀ x, r = .ok x → ∀ existing ∈ s.objects .promise, existing.key = new.key →
        new.metadata.finalizers = existing.metadata.finalizers → existing.settle = some existing →
          PresentAt name version (t.objects .promise)) ∧
      ∀ v, HasVersion name v s → HasVersion name v t := by
  have hstay : Installs name version document s s := fun p hp => Or.inl hp
  cases hfind : s.find .promise new.key with
  | none =>
    obtain ⟨rfl, hr⟩ := h.of_refused ((serve_of_missing hfind).1 new rfl)
    exact ⟨hstay, fun x hx => absurd hx (hr x), fun _ => id⟩
  | some stored =>
    obtain ⟨hstored, hkey⟩ := s.find_eq_some.mp hfind
    rcases serve_update hfind with hs | ⟨hok, hrep, -, -⟩
    · obtain ⟨rfl, hr⟩ := h.of_refused hs
      exact ⟨hstay, fun x hx => absurd hx (hr x), fun _ => id⟩
    · rcases h.of_served hok with ⟨rfl, hr⟩ | ⟨rfl, -⟩
      · exact ⟨hstay, fun x hx => absurd hx (hr x), fun _ => id⟩
      · refine ⟨fun p hp => ?_, fun x _ existing hmem hsame hfin hsettle => ?_,
          fun v hv release hrelease => ?_⟩
        · rcases (hrep.mem p).mp hp with ⟨hold, -⟩ | hset
          · exact Or.inl hold
          · obtain rfl := Object.settle_eq_some hset
            exact Or.inr ⟨madeFor_accept hnew hkey, settle_settle hset⟩
        · obtain rfl := s.eq_of_key hmem hstored (hsame.trans hkey.symm)
          -- the finalizers stay, so the stored object stays
          have hset : (existing.accept new).settle = some (existing.accept new) := by
            unfold Object.settle at hsettle ⊢
            split_ifs at hsettle with hgone
            refine if_neg ?_
            simpa [Object.accept, hfin] using hgone
          exact ⟨_, (hrep.mem _).mpr (Or.inr hset), hnew.carries, hnew.version⟩
        · rw [hrep.others .promiseRelease (by decide)] at hrelease
          exact hv release hrelease

end

/-! ### One reconcile -/

section

variable {quiet : Prop} {R : Cluster scheme → Cluster scheme → Prop} {pr : PromiseRelease}
  {document : Promise}

/-- The end of a reconcile: the invariant, and when the others were quiet, Installed is
reported only of one Promise at the right version. -/
def Ends (name : String) (quiet : Prop) (out : Outcome) (c : Cluster scheme) : Prop :=
  Consistent name c ∧ (quiet → out.reportsInstalled = true → InstalledOnce name c)

theorem ends_of_not_reported {out : Outcome} (hout : out.reportsInstalled = false)
    (hs : Consistent name s) : Ends name quiet out s :=
  ⟨hs, fun _ h => absurd (hout.symm.trans h) Bool.false_ne_true⟩

theorem safe_pure_not_reported (hR : Surroundings name quiet R) {out : Outcome}
    (hout : out.reportsInstalled = false) (hs : Consistent name s) :
    Safe name R (Ends name quiet) (pure out) s :=
  within_pure fun t ht => ends_of_not_reported hout (hs.others (hR.others s t ht))

/-- The release has its version, and a Promise at this version is there. -/
def VersionPresent (name version : String) (c : Cluster scheme) : Prop :=
  HasVersion name version c ∧ PresentAt name version (c.objects .promise)

theorem lasting_versionPresent (version : String) : Lasting name (VersionPresent name version) :=
  (lasting_hasVersion version).and lasting_of_promises

theorem Holds.installedOnce {version : String} (hq : quiet)
    (h : Holds name quiet (VersionPresent name version) s) : InstalledOnce name s := by
  obtain ⟨hversion, p, hp, hc, hlookup⟩ := h.2 hq
  exact ⟨p, hp, hc, fun q hq hcq => h.1.unique q hq p hp hcq hc, version, hlookup, hversion⟩

theorem safe_reportInstalled (hR : Surroundings name quiet R)
    (hs : Holds name quiet (VersionPresent name pr.spec.version) s) :
    Safe name R (Ends name quiet) (reportInstalled pr) s := by
  have hlast : Lasting name (VersionPresent name pr.spec.version) :=
    lasting_versionPresent pr.spec.version
  refine within_bind hR.refl
    (safe_of_harmless hR hlast (calls_updateStatusAndConditions pr _ _ _) hs) fun _ t ht => ?_
  refine within_pure fun u hu => ?_
  have hend := ht.after_others hR hlast hu
  exact ⟨hend.1, fun hq _ => hend.installedOnce hq⟩

/-- The Promise is installed unless a failure is returned. -/
def Installed (name : String) (quiet : Prop) (version : String) (e : Option Failure)
    (c : Cluster scheme) : Prop :=
  Holds name quiet (fun c => HasVersion name version c ∧
    (e = none → PresentAt name version (c.objects .promise))) c

theorem lasting_installed (version : String) (e : Option Failure) :
    Lasting name fun c => HasVersion name version c ∧
      (e = none → PresentAt name version (c.objects .promise)) :=
  (lasting_hasVersion version).and
    (lasting_of_promises (P := fun l => e = none → PresentAt name version l))

theorem safe_pure_installed (hR : Surroundings name quiet R) {version : String}
    {e : Option Failure} (hs : Installed name quiet version e s) :
    Safe name R (Installed name quiet version) (pure e) s :=
  within_pure fun _ ht => hs.after_others hR (lasting_installed version e) ht

theorem safe_pure_failed (hR : Surroundings name quiet R) {version : String} {e : Failure}
    (hs : Holds name quiet (HasVersion name version) s) :
    Safe name R (Installed name quiet version) (pure (some e)) s :=
  safe_pure_installed hR ⟨hs.1, fun hq => ⟨hs.2 hq, fun h => by cases h⟩⟩

/-- A write of the document's Promise, with what it needs and what it leaves. -/
theorem safe_write (hR : Surroundings name quiet R) {version : String} {call : ApiCall scheme}
    {f : Except ApiError call.Result → Prog (Option Failure)}
    (hf : ∀ r, ∃ e, f r = pure e ∧ (e = none → ∃ x, r = .ok x))
    {F : Cluster scheme → Prop} (hF : Lasting name F) (hv : version ≠ "")
    (hs : Holds name quiet (fun c => HasVersion name version c ∧ F c) s)
    (hname : NameKept name s document)
    (hcall : ∀ s r t, MayFail call s r t → Installs name version document s t ∧
      (∀ x, r = .ok x → F s → Consistent name s → PresentAt name version (t.objects .promise)) ∧
      ∀ v, HasVersion name v s → HasVersion name v t) :
    Safe name R (Installed name quiet version) (api call >>= f) s := by
  have hlast : Lasting name fun c => HasVersion name version c ∧ F c :=
    (lasting_hasVersion version).and hF
  refine within_bind hR.refl
    (M := fun r c => ∀ e, (e = none → ∃ x, r = .ok x) → Installed name quiet version e c) ?_ ?_
  · refine safe_api (I := fun c => Holds name quiet (fun c => HasVersion name version c ∧ F c) c ∧
        NameKept name c document)
      (fun s t hst h => ⟨h.1.after_others hR hlast hst, h.2.others (hR.others s t hst)⟩)
      (fun r s t hst h e he => (h e he).after_others hR (lasting_installed version e) hst) ?_
      ⟨hs, hname⟩
    rintro s r t ⟨hs, hname⟩ hmay
    obtain ⟨hinstalls, hpresent, hversion⟩ := hcall s r t hmay
    have hcons (h : Consistent name s) : Consistent name t := h.installs hv hname hinstalls
    refine ⟨hcons, fun e he => ⟨hcons hs.1, fun hq => ⟨hversion version (hs.2 hq).1, ?_⟩⟩⟩
    intro hnone
    obtain ⟨x, hx⟩ := he hnone
    exact hpresent x hx (hs.2 hq).2 hs.1
  · intro r t ht
    obtain ⟨e, hfe, he⟩ := hf r
    rw [hfe]
    exact safe_pure_installed hR (ht e he)

theorem safe_installPromise (hR : Surroundings name quiet R) (hpr : pr.metadata.name = name)
    (hv : pr.spec.version ≠ "")
    (hdocument : document.metadata.labels.lookup Label.promiseVersion = some pr.spec.version)
    (hs : Holds name quiet (HasVersion name pr.spec.version) s)
    (hname : NameKept name s document) :
    Safe name R (Installed name quiet pr.spec.version) (installPromise pr document) s := by
  have hread (r : Except ApiError Promise) : Lasting name fun c =>
      HasVersion name pr.spec.version c ∧ ∀ x, r = .ok x → x ∈ c.objects .promise :=
    (lasting_hasVersion _).and (lasting_of_promises (P := fun l => ∀ x, r = .ok x → x ∈ l))
  refine within_bind hR.refl (M := fun r c =>
    Holds name quiet (fun c => HasVersion name pr.spec.version c ∧
      ∀ x, r = .ok x → x ∈ c.objects .promise) c ∧ NameKept name c document ∧
      ∀ x, r = .ok x → x.key = ("", document.metadata.name)) ?_ ?_
  · refine safe_read (I := fun c => Holds name quiet (HasVersion name pr.spec.version) c ∧
        NameKept name c document)
      (fun s t hst h => ⟨h.1.after_others hR (lasting_hasVersion _) hst,
        h.2.others (hR.others s t hst)⟩)
      (fun r s t hst h => ⟨h.1.after_others hR (hread r) hst, h.2.1.others (hR.others s t hst),
        h.2.2⟩) (fun s => (serve_get _ _ _ s).1) ?_ ⟨hs, hname⟩
    rintro s r ⟨hs, hname⟩ hserve
    have hfound (x : Promise) (hx : r = .ok x) :
        x ∈ s.objects .promise ∧ x.key = ("", document.metadata.name) :=
      s.find_eq_some.mp (((serve_get (S := scheme) .promise _ _ s).2.1 x).mp (hserve x hx))
    exact ⟨⟨hs.1, fun hq => ⟨hs.2 hq, fun x hx => (hfound x hx).1⟩⟩, hname,
      fun x hx => (hfound x hx).2⟩
  · rintro r t ⟨ht, hname, hkey⟩
    have hfailed (e : Failure) :
        Safe name R (Installed name quiet pr.spec.version) (pure (some e)) t :=
      safe_pure_failed hR ⟨ht.1, fun hq => (ht.2 hq).1⟩
    cases r with
    | error e =>
      by_cases hmissing : e = .notFound
      · subst hmissing
        dsimp only
        cases hnew : mutatePromise pr document ⟨{ name := document.metadata.name }, {}, {}⟩ with
        | error e => exact hfailed e
        | ok new =>
          obtain ⟨hmade, -⟩ := madeFor_mutatePromise hnew rfl hdocument
          rw [hpr] at hmade
          refine safe_write hR (F := fun _ => True) ?_ (fun _ _ _ => id) hv
            ⟨ht.1, fun hq => ⟨(ht.2 hq).1, trivial⟩⟩ hname fun s r t hmay => ?_
          · rintro (e | x)
            · exact ⟨_, rfl, fun h => by cases h⟩
            · exact ⟨_, rfl, fun _ => ⟨x, rfl⟩⟩
          · obtain ⟨hinstalls, hpresent, hversion⟩ := installs_create hmade hmay
            exact ⟨hinstalls, fun x hx _ _ => hpresent x hx, hversion⟩
      · cases e with
        | notFound => exact absurd rfl hmissing
        | alreadyExists | conflict | invalid | unavailable => exact hfailed _
    | ok existing =>
      dsimp only
      cases hnew : mutatePromise pr document existing with
      | error e => exact hfailed e
      | ok new =>
        obtain ⟨hmade, hfin⟩ := madeFor_mutatePromise hnew (hkey existing rfl) hdocument
        rw [hpr] at hmade
        dsimp only
        split_ifs with hsame
        · subst hsame
          refine safe_pure_installed hR ⟨ht.1, fun hq => ⟨(ht.2 hq).1, fun _ => ?_⟩⟩
          exact ⟨new, (ht.2 hq).2 new rfl, hmade.carries, hmade.version⟩
        · refine safe_write hR (F := fun c => existing ∈ c.objects .promise) ?_
            (lasting_of_promises (P := fun l => existing ∈ l)) hv
            ⟨ht.1, fun hq => ⟨(ht.2 hq).1, (ht.2 hq).2 existing rfl⟩⟩ hname fun s r t hmay => ?_
          · rintro (e | x)
            · exact ⟨_, rfl, fun h => by cases h⟩
            · exact ⟨_, rfl, fun _ => ⟨x, rfl⟩⟩
          · obtain ⟨hinstalls, hpresent, hversion⟩ := installs_update hmade hmay
            refine ⟨hinstalls, fun x hx hmem hcons => ?_, hversion⟩
            exact hpresent x hx existing hmem ((hkey existing rfl).trans hmade.key.symm) hfin
              (hcons.standing existing hmem)

theorem safe_install (hR : Surroundings name quiet R) (hpr : pr.metadata.name = name)
    (hv : pr.spec.version ≠ "")
    (hdocument : document.metadata.labels.lookup Label.promiseVersion = some pr.spec.version)
    (hs : Holds name quiet (HasVersion name pr.spec.version) s)
    (hname : NameKept name s document) :
    Safe name R (Ends name quiet) (install pr document) s := by
  refine within_bind hR.refl (safe_installPromise hR hpr hv hdocument hs hname) fun e t ht => ?_
  cases e with
  | some e =>
    have hcalls := (calls_updateStatusAndConditions pr statusErrorInstalling
      "Failed to create or update Promise" "FailedToCreateOrUpdatePromise").mono
        fun _ => Harmless.modest
    exact within_bind hR.refl (safe_of_modest hR hcalls ht.1) fun _ u hu =>
      safe_pure_not_reported hR rfl hu
  | none => exact safe_reportInstalled hR ⟨ht.1, fun hq => ⟨(ht.2 hq).1, (ht.2 hq).2 rfl⟩⟩

/-- The document was found to be at the version of the release, and nothing was written. -/
def Validated (name : String) (quiet : Prop) (pr : PromiseRelease) (document : Promise)
    (c : Cluster scheme) : Prop :=
  pr.spec.version ≠ "" ∧
    document.metadata.labels.lookup Label.promiseVersion = some pr.spec.version ∧
    Holds name quiet (HasVersion name pr.spec.version) c ∧ NameKept name c document

theorem safe_validateVersion (hR : Surroundings name quiet R)
    (hs : Holds name quiet (HasVersion name pr.spec.version) s)
    (hname : NameKept name s document) :
    Safe name R (fun r c => Consistent name c ∧
      (r = .ok false → Validated name quiet pr document c)) (validateVersion pr document) s := by
  have hother {r : Except Failure Bool} {t : Cluster scheme} (hr : r ≠ .ok false)
      (ht : Consistent name t) : Safe name R (fun r c => Consistent name c ∧
        (r = .ok false → Validated name quiet pr document c)) (pure r) t :=
    within_pure fun u hu => ⟨ht.others (hR.others t u hu), fun h => absurd h hr⟩
  have hreport (message reason : String) := safe_of_modest hR
    ((calls_updateStatusAndConditions pr statusErrorInstalling message reason).mono
      fun _ => Harmless.modest) hs.1
  unfold validateVersion
  cases hfound : document.metadata.labels.lookup Label.promiseVersion with
  | none =>
    exact within_bind hR.refl (hreport _ _) fun _ t ht => hother (fun h => by cases h) ht
  | some promiseVersion =>
    dsimp only
    split_ifs with hempty hmismatch
    · refine within_bind hR.refl
        (safe_of_modest hR (calls_perform.mpr (modest_update _)) hs.1) fun r t ht => ?_
      cases r <;> exact hother (fun h => by cases h) ht
    · exact within_bind hR.refl (hreport _ _) fun _ t ht => hother (fun h => by cases h) ht
    · refine within_pure fun t ht => ⟨hs.1.others (hR.others s t ht), fun _ => ?_⟩
      refine ⟨hempty, ?_, hs.after_others hR (lasting_hasVersion _) ht,
        hname.others (hR.others s t ht)⟩
      rw [hfound, not_not.mp hmismatch]

theorem calls_fetchSecretFromReference (pr : PromiseRelease) :
    (fetchSecretFromReference pr).Calls Harmless := by
  unfold fetchSecretFromReference
  split
  · exact calls_pure _
  · refine calls_bind (calls_perform.mpr ⟨id, Or.inl id⟩) fun r => ?_
    cases r <;> exact calls_pure _

theorem safe_fromURL (hR : Surroundings name quiet R) (url : String) (authHeader : Bytes)
    (hs : Holds name quiet (HasVersion name pr.spec.version) s) :
    Safe name R (fun r c => Holds name quiet (HasVersion name pr.spec.version) c ∧
      ∀ document, r = .ok document → NameKept name c document) (fromURL url authHeader) s := by
  rintro t ht r u ⟨rfl, hserved⟩
  refine ⟨id, fun v hv => ⟨?_, fun document hr => ?_⟩⟩
  · exact (hs.after_others hR (lasting_hasVersion _) ht).after_others hR (lasting_hasVersion _) hv
  · exact (hserved document hr).others (hR.others _ v hv)

theorem safe_fetchAndInstall (hR : Surroundings name quiet R) (hpr : pr.metadata.name = name)
    (hs : Holds name quiet (HasVersion name pr.spec.version) s) :
    Safe name R (Ends name quiet) (fetchAndInstall pr) s := by
  refine within_bind hR.refl (safe_of_harmless hR (lasting_hasVersion _)
    (calls_fetchSecretFromReference pr) hs) fun r t ht => ?_
  cases r with
  | error e => exact safe_pure_not_reported hR rfl ht.1
  | ok secretRefData =>
    dsimp only
    split
    · exact safe_pure_not_reported hR rfl ht.1
    · refine within_bind hR.refl (safe_fromURL hR _ _ ht) fun r u hu => ?_
      cases r with
      | error e =>
        have hcalls := (calls_updateStatusAndConditions pr statusErrorInstalling
          "Failed to fetch Promise from URL" "FailedToFetchPromise").mono fun _ => Harmless.modest
        exact within_bind hR.refl (safe_of_modest hR hcalls hu.1.1) fun _ v hv =>
          safe_pure_not_reported hR rfl hv
      | ok document =>
        refine within_bind hR.refl (safe_validateVersion hR hu.1 (hu.2 document rfl))
          fun r v hv => ?_
        rcases r with e | _ | _
        · exact safe_pure_not_reported hR rfl hv.1
        · obtain ⟨hversion, hdocument, hholds, hname⟩ := hv.2 rfl
          exact safe_install hR hpr hversion hdocument hholds hname
        · exact safe_pure_not_reported hR rfl hv.1

theorem safe_listPromises (hR : Surroundings name quiet R)
    (hs : Holds name quiet (HasVersion name pr.spec.version) s) :
    Safe name R (fun r => Holds name quiet fun c => HasVersion name pr.spec.version c ∧
      ∀ l, r = .ok l → ∀ p ∈ l, p ∈ c.objects .promise ∧ Carries name p) (listPromises name) s := by
  have hlast (r : Except ApiError (List Promise)) : Lasting name fun c =>
      HasVersion name pr.spec.version c ∧
        ∀ l, r = .ok l → ∀ p ∈ l, p ∈ c.objects .promise ∧ Carries name p :=
    (lasting_hasVersion _).and (lasting_of_promises
      (P := fun stored => ∀ l, r = .ok l → ∀ p ∈ l, p ∈ stored ∧ Carries name p))
  refine safe_read (I := Holds name quiet (HasVersion name pr.spec.version))
    (fun s t hst h => h.after_others hR (lasting_hasVersion _) hst)
    (fun r s t hst h => h.after_others hR (hlast r) hst) (fun s => rfl) ?_ hs
  intro s r hs hserve
  refine ⟨hs.1, fun hq => ⟨hs.2 hq, fun l hl p hp => ?_⟩⟩
  obtain rfl := Except.ok.inj (hserve l hl)
  obtain ⟨hmem, -, hsel⟩ := Cluster.mem_listed.mp hp
  have hlabel := (Selector.fromSet_ofList_iff (by exact List.nodup_singleton _)).mp hsel
  exact ⟨hmem, hlabel _ (List.mem_singleton_self _)⟩

theorem safe_promiseExistsAtDesiredVersion (hR : Surroundings name quiet R)
    (hpr : pr.metadata.name = name)
    (hs : Holds name quiet (HasVersion name pr.spec.version) s) :
    Safe name R (fun r c => Holds name quiet (HasVersion name pr.spec.version) c ∧
      (r = .ok true → Holds name quiet (VersionPresent name pr.spec.version) c))
      (promiseExistsAtDesiredVersion pr) s := by
  subst hpr
  refine within_bind hR.refl (safe_listPromises hR hs) fun r t ht => ?_
  have hversion : Holds pr.metadata.name quiet (HasVersion pr.metadata.name pr.spec.version) t :=
    ⟨ht.1, fun hq => (ht.2 hq).1⟩
  have hother {r : Except Failure Bool} (hr : r ≠ .ok true) : Safe pr.metadata.name R
      (fun r c => Holds pr.metadata.name quiet (HasVersion pr.metadata.name pr.spec.version) c ∧
        (r = .ok true → Holds pr.metadata.name quiet
          (VersionPresent pr.metadata.name pr.spec.version) c)) (pure r) t :=
    within_pure fun u hu =>
      ⟨hversion.after_others hR (lasting_hasVersion _) hu, fun h => absurd h hr⟩
  rcases r with e | _ | ⟨p, _ | ⟨q, rest⟩⟩
  · exact hother fun h => by cases h
  · exact hother fun h => by cases h
  · refine within_pure fun u hu => ⟨hversion.after_others hR (lasting_hasVersion _) hu, fun h => ?_⟩
    refine Holds.after_others hR (lasting_versionPresent _) ⟨ht.1, fun hq => ?_⟩ hu
    obtain ⟨hv, hlisted⟩ := ht.2 hq
    obtain ⟨hmem, hc⟩ := hlisted [p] rfl p (List.mem_singleton_self p)
    obtain ⟨version, -, hlookup⟩ := ht.1.versioned p hmem hc
    have hvalue : p.metadata.labels.value Label.promiseVersion = pr.spec.version := by
      simpa using h
    rw [Labels.value, hlookup, Option.getD_some] at hvalue
    exact ⟨hv, p, hmem, hc, hvalue ▸ hlookup⟩
  · exact hother fun h => by cases h

/-- A reconcile keeps the invariant, whatever the others do. -/
theorem safe_reconcile (hR : Surroundings name quiet R) (hs : Consistent name s) :
    Safe name R (Ends name quiet) (reconcile name) s := by
  refine within_bind hR.refl (M := fun r c => Consistent name c ∧ ∀ pr, r = .ok pr →
    pr.metadata.name = name ∧ Holds name quiet (HasVersion name pr.spec.version) c) ?_ ?_
  · refine safe_read (I := Consistent name) (fun s t hst h => h.others (hR.others s t hst))
      (fun r s t hst h => ⟨h.1.others (hR.others s t hst), fun pr hr => ⟨(h.2 pr hr).1,
        (h.2 pr hr).2.after_others hR (lasting_hasVersion _) hst⟩⟩)
      (fun s => (serve_get _ _ _ s).1) ?_ hs
    refine fun s r hs hserve => ⟨hs, fun pr hr => ?_⟩
    obtain ⟨hmem, hkey⟩ := s.find_eq_some.mp
      (((serve_get (S := scheme) .promiseRelease "" name s).2.1 pr).mp (hserve pr hr))
    refine ⟨(Prod.mk.inj hkey).2, hs, fun _ release hrelease hsame => ?_⟩
    rw [s.eq_of_key hrelease hmem (hsame.trans hkey.symm)]
  · rintro r t ⟨ht, hread⟩
    rcases r with e | pr
    · cases e <;> exact safe_pure_not_reported hR rfl ht
    · obtain ⟨hpr, hversion⟩ := hread pr rfl
      dsimp only
      split_ifs
      · exact within_bind hR.refl (safe_of_modest hR (calls_delete pr) ht) fun _ u hu =>
          safe_pure_not_reported hR rfl hu
      · exact within_bind hR.refl (safe_of_modest hR (calls_perform.mpr (modest_update _)) ht)
          fun _ u hu => safe_pure_not_reported hR rfl hu
      · refine within_bind hR.refl (safe_promiseExistsAtDesiredVersion hR hpr hversion)
          fun r u hu => ?_
        rcases r with e | _ | _
        · exact safe_pure_not_reported hR rfl hu.1.1
        · exact safe_fetchAndInstall hR hpr hu.1
        · exact safe_reportInstalled hR (hu.2 rfl)

end

/-! ### Runs -/

/-- Reconciles of the release one after the other, while others act at any time. -/
def Run (serves : Cluster scheme → Promise → Prop) (name : String) :
    (Unit → Prog Outcome) × Cluster scheme → (Unit → Prog Outcome) × Cluster scheme → Prop :=
  Turns (fun _ => fetching serves) (fun _ => reconcile name) (OthersAct name)

theorem consistent_of_free (hfree : ∀ p ∈ s.objects .promise, ¬ Carries name p)
    (hstanding : Standing s) : Consistent name s :=
  ⟨fun p hp _ _ hc => absurd hc (hfree p hp), fun p hp hc => absurd hc (hfree p hp), hstanding⟩

theorem consistent_of_run {pool pool' : Unit → Prog Outcome} (hpool : pool = fun _ => reconcile name)
    (hs : Consistent name s) (hrun : Run (NameKept name) name (pool, s) (pool', t)) :
    Consistent name t := by
  have hR : Surroundings name False (OthersAct name) := surroundings_othersAct
  have hsafe {u : Cluster scheme} (hu : Consistent name u) :
      Safe name (OthersAct name) (Ends name False) (reconcile name) u := safe_reconcile hR hu
  refine Turns.invariant (R := fun _ => OthersAct name) (Q := fun _ => Ends name False)
    (G := fun _ _ s t => Consistent name s → Consistent name t) (fun _ => hR.trans)
    (fun _ => hR.refl) (fun i j _ _ _ hij => absurd rfl hij) (fun _ _ _ => id)
    (fun _ _ u hu => hsafe hu.1) hrun (fun j => ?_) (fun _ _ _ _ h => h)
    (fun u v huv hu => hu.others huv) hs
  rw [hpool]
  exact hsafe hs

/-- If every fetched document has the name of the Promise that carries the label, then at
most one Promise carries it at any time. A reconcile that reports Installed leaves exactly
one, at the version of the release, unless someone touches these meanwhile. -/
theorem one_promise_for_release {pool : Unit → Prog Outcome}
    (hfree : ∀ p ∈ s.objects .promise, ¬ Carries name p) (hstanding : Standing s)
    (hrun : Run (NameKept name) name (fun _ => reconcile name, s) (pool, t)) :
    AtMostOne name t ∧ ∀ out u,
      Exec (amid (Quiet name) (fetching (NameKept name))) (reconcile name) t out u →
        out.reportsInstalled = true → InstalledOnce name u := by
  have ht : Consistent name t := consistent_of_run rfl (consistent_of_free hfree hstanding) hrun
  refine ⟨ht.unique, fun out u hexec hreports => ?_⟩
  have hR : Surroundings name True (Quiet name) := surroundings_quiet
  exact (Within.exec hR.refl (safe_reconcile hR ht) hexec).2 trivial hreports

/-! ### A release and its documents -/

instance (name : String) (promise : Promise) : Decidable (Carries name promise) :=
  inferInstanceAs (Decidable (_ = _))

instance (name : String) (c : Cluster scheme) (document : Promise) :
    Decidable (NameKept name c document) :=
  inferInstanceAs (Decidable (∀ p ∈ c.objects .promise, Carries name p → p.key = _))

/-- Every call is served, and this document if it may be. -/
def serveDocument (serves : Cluster scheme → Promise → Prop) [∀ c d, Decidable (serves c d)]
    (document : Promise) :
    (call : Call) → Cluster scheme → Option (signature.Answer call × Cluster scheme)
  | .api call, c => some (serve call c)
  | .fromURL _ _, c => if serves c document then some (.ok document, c) else none

theorem fetching_of_serveDocument {serves : Cluster scheme → Promise → Prop}
    [∀ c d, Decidable (serves c d)] {document : Promise} (call : Call) (s : Cluster scheme)
    (r : signature.Answer call) (t : Cluster scheme)
    (h : serveDocument serves document call s = some (r, t)) : fetching serves call s r t := by
  cases call with
  | api call =>
    have heq : serve call s = (r, t) := Option.some.inj h
    exact Or.inl ⟨by rw [heq], by rw [heq]⟩
  | fromURL url authHeader =>
    simp only [serveDocument] at h
    split_ifs at h with hserves
    cases h
    exact ⟨rfl, fun promise hr => Except.ok.inj hr ▸ hserves⟩

def plainRelease (version : String) : PromiseRelease :=
  ⟨{ name := "redis", finalizers := [promiseCleanupFinalizer] }, { version }, {}⟩

def documentAt (name version : String) : Promise :=
  ⟨{ name, labels := Labels.ofList [(Label.promiseVersion, version)] }, {}, {}⟩

/-- The release alone. -/
def plainCluster : Cluster scheme :=
  (serve (S := scheme) (.create .promiseRelease (plainRelease "v1")) (.empty scheme)).2

/-- The release asks for another version. -/
def upgraded (version : String) (c : Cluster scheme) : Cluster scheme :=
  (serve (S := scheme) (.patch .promiseRelease "" "redis" fun spec =>
    ({ spec with version := version } : PromiseReleaseSpec)) c).2

theorem othersAct_upgraded (version : String) (c : Cluster scheme) :
    OthersAct name c (upgraded version c) :=
  othersAct_of_promises (serve_of_not_writes (fun h => by cases h) c)

theorem promises_plainCluster : plainCluster.objects .promise = [] := by decide +kernel

theorem free_plainCluster : ∀ p ∈ plainCluster.objects .promise, ¬ Carries "redis" p := by
  simp [promises_plainCluster]

theorem standing_plainCluster : Standing plainCluster := by
  simp [Standing, promises_plainCluster]

theorem one_promise_for_release_sample : ∃ out u,
    Exec (fetching (NameKept "redis")) (reconcile "redis") plainCluster out u ∧
      out.reportsInstalled = true ∧ InstalledOnce "redis" u := by
  have heval : (eval (serveDocument (NameKept "redis") (documentAt "redis" "v1"))
      (reconcile "redis") plainCluster).any (fun x => x.1.reportsInstalled) = true := by
    decide +kernel
  obtain ⟨out, u, hexec, hreports⟩ := exists_exec_of_eval fetching_of_serveDocument heval
  refine ⟨out, u, hexec, hreports, ?_⟩
  refine (one_promise_for_release free_plainCluster standing_plainCluster .refl).2 out u ?_ hreports
  exact hexec.mono fun c s r t h => ⟨s, .refl s, h⟩

def carrierKeys (name : String) (c : Cluster scheme) : List (String × String) :=
  ((c.objects .promise).filter fun p => Carries name p).map Object.key

theorem not_atMostOne_of_keys {c : Cluster scheme} {k k' : String × String} (hne : k ≠ k')
    (h : carrierKeys name c = [k, k']) : ¬ AtMostOne name c := by
  intro hone
  have hcarrier (x : String × String) (hx : x ∈ carrierKeys name c) :
      ∃ p ∈ c.objects .promise, Carries name p ∧ p.key = x := by
    obtain ⟨p, hp, rfl⟩ := List.mem_map.mp hx
    obtain ⟨hmem, hc⟩ := List.mem_filter.mp hp
    exact ⟨p, hmem, of_decide_eq_true hc, rfl⟩
  obtain ⟨p, hp, hcp, rfl⟩ := hcarrier k (by simp [h])
  obtain ⟨q, hq, hcq, rfl⟩ := hcarrier k' (by simp [h])
  exact hne (congrArg Object.key (hone p hp q hq hcp hcq))

/-- The next version comes in a document with another name: it is installed beside the
Promise that is there, and both carry the label. -/
theorem renamed_document_installed_twice : ∃ pool t,
    Run (fun _ _ => True) "redis" (fun _ => reconcile "redis", plainCluster) (pool, t) ∧
      ¬ AtMostOne "redis" t := by
  have heval : ((eval (serveDocument (fun _ _ => True) (documentAt "redis" "v1"))
      (reconcile "redis") plainCluster).bind fun x =>
        eval (serveDocument (fun _ _ => True) (documentAt "redis-operator" "v2"))
          (reconcile "redis") (upgraded "v2" x.2)).any
      (fun y => carrierKeys "redis" y.2 = [("", "redis"), ("", "redis-operator")]) = true := by
    decide +kernel
  obtain ⟨⟨out, t⟩, hruns, hkeys⟩ := (Option.any_eq_true _ _).mp heval
  obtain ⟨⟨first, u⟩, hfirst, hsecond⟩ := Option.bind_eq_some_iff.mp hruns
  have hrun : Run (fun _ _ => True) "redis" (fun _ => reconcile "redis", plainCluster)
      (Function.update (fun _ => reconcile "redis") () (.done first), u) :=
    .of_exec (exec_of_eval fetching_of_serveDocument hfirst)
  have hagain : Run (fun _ _ => True) "redis"
      (Function.update (fun _ => reconcile "redis") () (.done first), upgraded "v2" u)
      (Function.update (Function.update (fun _ => reconcile "redis") () (.done first)) ()
        (.done out), t) :=
    .again (Function.update_self ..) (exec_of_eval fetching_of_serveDocument hsecond)
  refine ⟨_, t, (hrun.tail (.surroundings (othersAct_upgraded "v2" u))).trans hagain, ?_⟩
  exact not_atMostOne_of_keys (by decide) (of_decide_eq_true hkeys)

end Kratix.PromiseReleases
