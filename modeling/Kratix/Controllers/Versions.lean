import Kratix.Controllers.Accesses
import Kratix.Controllers.Release
import Kratix.Lib.Concurrent
import Kratix.Scheduling.Placement

/-!
# The version that a WorkPlacement reports

A version that could not be reported is kept in a cache until the next
reconcile. The reconciles of all WorkPlacements share the cache; they run side by
side, each WorkPlacement's own one after the other, and any update of a status
may fail. The last version of each WorkPlacement is remembered to compare with.
-/

namespace Kratix.Versions

open Apiserver Effect WorkPlacementController

/-! ### Reconciles side by side -/

/-- The world, and the last version that was returned for each WorkPlacement. -/
structure History where
  world : World
  last : String × String → String

def uniqueID (key : String × String) : String := key.1 ++ "-" ++ key.2

def History.cached (s : History) (key : String × String) : String :=
  (s.world.versionCache.lookup (uniqueID key)).getD ""

/-- The history so far is what the WorkPlacements report. -/
def History.start (s : World) : History :=
  ⟨s, fun key => ((s.placement key).map fun x => x.status.versionID).getD ""⟩

/-- The last version, after a call for the WorkPlacement. -/
def returned (old : String) : (call : Call) → call.Answer → String
  | .updateFiles _ _ _ _ _, .ok versionID => if versionID = "" then old else versionID
  | _, _ => old

/-- An update returns a version if the content changed, and an empty one otherwise. -/
def TellsChanges (s t : World) : (call : Call) → call.Answer → Prop
  | .updateFiles w _ _ _ _, .ok versionID =>
    versionID = "" ↔ ∀ q, (t.files w.backend).lookup q = (s.files w.backend).lookup q
  | _, _ => True

/-- Every outcome of a call in a reconcile of this WorkPlacement. -/
def recording (env : Externals) (key : String × String) : Handler signature History :=
  fun call s r t => faulty env call s.world r t.world ∧ TellsChanges s.world t.world call r ∧
    t.last = Function.update s.last key (returned (s.last key) call r)

/-- The outcomes for which `allowed` holds. -/
def recordingWhen (allowed : String × String → History → (call : Call) → call.Answer → Bool)
    (env : Externals) (key : String × String) : Handler signature History :=
  fun call s r t => recording env key call s r t ∧ allowed key s call r = true

/-- When a status cannot be written, the last version is in that status or in the cache. -/
def keepsVersion (key : String × String) (s : History) : (call : Call) → call.Answer → Bool
  | .api (.updateStatus .workPlacement x), .error _ =>
    x.status.versionID = s.last key || s.cached key = s.last key
  | _, _ => true

/-- No version is returned while another one is in the cache. -/
def keepsCache (key : String × String) (s : History) : (call : Call) → call.Answer → Bool
  | .updateFiles _ _ _ _ _, .ok versionID =>
    versionID = "" || (s.cached key = "" || s.cached key = versionID)
  | _, _ => true

/-- No version is lost. -/
def keepsBoth (key : String × String) (s : History) (call : Call) (r : call.Answer) : Bool :=
  keepsVersion key s call r && keepsCache key s call r

/-- What anything but the reconciles may do: it creates no WorkPlacement anew and leaves
the versions in the statuses alone. -/
structure Elsewhere (s t : History) : Prop where
  last : t.last = s.last
  cache : t.world.versionCache = s.world.versionCache
  placement : ∀ key x', t.world.placement key = some x' → ∃ x, s.world.placement key = some x ∧
    x'.status.versionID = x.status.versionID ∧ (x.metadata.deleting = true →
      x'.metadata.deleting = true)

/-- The reconciles of the WorkPlacements, again and again. -/
def reconciles {ι : Type} (env : Externals) (key : ι → String × String) (i : ι) :
    Prog ReconcileResult :=
  reconcile env (key i).1 (key i).2

/-! ### Judging one reconcile -/

/-- Others leave what concerns this WorkPlacement. -/
structure Untouched (key : String × String) (s t : History) : Prop where
  last : t.last key = s.last key
  cached : t.cached key = s.cached key
  placement : ∀ x', t.world.placement key = some x' → ∃ x, s.world.placement key = some x ∧
    x'.status.versionID = x.status.versionID ∧ (x.metadata.deleting = true →
      x'.metadata.deleting = true)

namespace Untouched

variable {key : String × String} {s t u : History}

theorem refl (key : String × String) (s : History) : Untouched key s s :=
  ⟨rfl, rfl, fun x hx => ⟨x, hx, rfl, id⟩⟩

theorem trans (h : Untouched key s t) (h' : Untouched key t u) : Untouched key s u where
  last := h'.last.trans h.last
  cached := h'.cached.trans h.cached
  placement x' hx' := by
    obtain ⟨x, hx, hversion, hdeleting⟩ := h'.placement x' hx'
    obtain ⟨y, hy, hversion', hdeleting'⟩ := h.placement x hx
    exact ⟨y, hy, hversion.trans hversion', hdeleting ∘ hdeleting'⟩

theorem of_elsewhere (h : Elsewhere s t) : Untouched key s t where
  last := congrFun h.last key
  cached := by rw [History.cached, h.cache, History.cached]
  placement := h.placement key

end Untouched

/-- The other WorkPlacements are left alone. -/
def Minds (key : String × String) (_ : Call) (s t : History) : Prop :=
  ∀ key', uniqueID key' ≠ uniqueID key → Untouched key' s t

/-- Of the last, the cached and the reported version of a WorkPlacement that is not
deleted, `A` holds. -/
def Tells (key : String × String) (A : String → String → String → Prop) (s : History) : Prop :=
  ∀ x, s.world.placement key = some x → x.metadata.deleting = false →
    A (s.last key) (s.cached key) x.status.versionID

section

variable {key : String × String} {A B : String → String → String → Prop} {s t : History}

theorem Tells.imp (hAB : ∀ l c v, A l c v → B l c v) (hs : Tells key A s) : Tells key B s :=
  fun x hx hlive => hAB _ _ _ (hs x hx hlive)

theorem Tells.untouched (h : Untouched key s t) (hs : Tells key A s) : Tells key A t := by
  intro x' hx' hlive
  obtain ⟨x, hx, hversion, hdeleting⟩ := h.placement x' hx'
  rw [h.last, h.cached, hversion]
  refine hs x hx ?_
  cases hd : x.metadata.deleting with
  | false => rfl
  | true => exact absurd (hdeleting hd) (by simp [hlive])

end

/-- The program minds the others and ends with `P` and `Q`. -/
def Judged {α : Type} (env : Externals) (key : String × String) (P : α → Prop)
    (Q : α → String → String → String → Prop) (prog : Prog α) (s : History) : Prop :=
  Within (recordingWhen keepsBoth env key) (Untouched key) (Minds key)
    (fun a t => P a ∧ Tells key (Q a) t) prog s

variable {env : Externals} {key : String × String} {α β : Type}
  {A : String → String → String → Prop} {P : α → Prop} {Q : α → String → String → String → Prop}
  {s t : History}

theorem judged_pure {a : α} (ha : P a) (hs : Tells key (Q a) s) :
    Judged env key P Q (pure a) s :=
  within_pure fun _ ht => ⟨ha, hs.untouched ht⟩

theorem judged_bind {P' : β → Prop} {M : β → String → String → String → Prop} {prog : Prog β}
    {f : β → Prog α} (hp : Judged env key P' M prog s)
    (hf : ∀ b t, P' b → Tells key (M b) t → Judged env key P Q (f b) t) :
    Judged env key P Q (prog >>= f) s :=
  within_bind (Untouched.refl key) hp fun b t hb => hf b t hb.1 hb.2

theorem Judged.imp {P' : α → Prop} {Q' : α → String → String → String → Prop} {prog : Prog α}
    (hP : ∀ a, P a → P' a) (hQ : ∀ a l c v, P a → Q a l c v → Q' a l c v)
    (hp : Judged env key P Q prog s) : Judged env key P' Q' prog s :=
  Within.imp (fun a _ h => ⟨hP a h.1, h.2.imp fun l c v => hQ a l c v h.1⟩) hp

theorem judged_perform {call : Call} {P : call.Answer → Prop}
    {Q : call.Answer → String → String → String → Prop}
    (hc : ∀ t, Untouched key s t → ∀ r u, recordingWhen keepsBoth env key call t r u →
      Minds key call t u ∧ P r ∧ Tells key (Q r) u) :
    Judged env key P Q (Program.perform (S := signature) call) s := by
  refine within_perform fun t ht r u hu => ?_
  obtain ⟨hminds, hP, hQ⟩ := hc t ht r u hu
  exact ⟨hminds, fun v hv => ⟨hP, hQ.untouched hv⟩⟩

/-! ### Single calls -/

def Reads : Call → Prop
  | .api (.get _ _ _) => True
  | .api (.list _ _ _) => True
  | .connect _ => True
  | .readFile _ _ => True
  | .cachedVersion _ => True
  | _ => False

theorem reading_reads : Reading Reads where
  get := fun _ _ _ => trivial
  placements := fun _ _ => trivial
  connect := fun _ => trivial
  read := fun _ _ => trivial

theorem world_of_reads {call : Call} {r : call.Answer} {s t : World} (hcall : Reads call)
    (hc : faulty env call s r t) : t = s := by
  cases call with
  | api call =>
    cases call with
    | get k ns name => exact (exec_getObject (exec_perform.mpr hc)).1
    | list k ns sel => exact (exec_listObjects (exec_perform.mpr hc)).1
    | _ => exact hcall.elim
  | connect ref => exact hc.2
  | readFile w path => exact hc.2
  | cachedVersion id => exact hc.2
  | _ => exact hcall.elim

theorem eq_of_reads {call : Call} {r : call.Answer} (hcall : Reads call)
    (hc : recording env key call s r t) : t = s := by
  have hworld : t.world = s.world := world_of_reads hcall hc.1
  have hlast : t.last = s.last := by
    rw [hc.2.2]
    cases call with
    | updateFiles w dir name create delete => exact hcall.elim
    | _ => exact Function.update_eq_self key s.last
  cases t
  cases s
  exact congrArg₂ History.mk hworld hlast

theorem judged_reads {prog : Prog α} (hp : prog.Calls Reads) (hs : Tells key A s) :
    Judged env key (fun _ => True) (fun _ => A) prog s := by
  refine Within.imp (fun _ _ h => ⟨trivial, h⟩) (within_of_calls (I := Tells key A)
    (fun _ _ => Tells.untouched) ?_ hp hs)
  intro call t r u hcall ht hc
  obtain rfl := eq_of_reads hcall hc.1
  exact ⟨fun key' _ => Untouched.refl key' u, ht⟩

theorem judged_getObject (hs : Tells key A s) :
    Judged env key (fun r => ∀ x : WorkPlacement, r = .ok x → x.key = key)
      (fun r l c v => A l c v ∧ r ≠ .error .notFound ∧ ∀ x : WorkPlacement, r = .ok x →
        x.metadata.deleting = false ∧ v = x.status.versionID)
      (getObject .workPlacement key.1 key.2) s := by
  refine judged_perform fun t ht r u hc => ?_
  obtain rfl := eq_of_reads (by trivial) hc.1
  obtain ⟨-, hfound, hmissing⟩ := exec_getObject (exec_perform.mpr hc.1.1)
  refine ⟨fun key' _ => Untouched.refl key' u, ?_, ?_⟩
  · rintro x rfl
    exact (u.world.cluster.find_eq_some.mp (hfound x rfl)).2
  · intro y hy hlive
    refine ⟨(hs.untouched ht) y hy hlive, ?_, ?_⟩
    · rintro rfl
      cases hy.symm.trans (hmissing rfl)
    · rintro x rfl
      obtain rfl : y = x := Option.some.inj (hy.symm.trans (hfound x rfl))
      exact ⟨hlive, rfl⟩

theorem minds_of_recording {call : Call} {r : call.Answer} (hc : recording env key call s r t)
    (hcache : ∀ id, id ≠ uniqueID key →
      t.world.versionCache.lookup id = s.world.versionCache.lookup id)
    (hplacement : ∀ key', key' ≠ key → t.world.placement key' = s.world.placement key') :
    Minds key call s t := by
  intro key' hid
  have hkey : key' ≠ key := fun h => hid (congrArg uniqueID h)
  refine ⟨?_, ?_, ?_⟩
  · rw [hc.2.2, Function.update_of_ne hkey]
  · rw [History.cached, hcache _ hid, History.cached]
  · intro x hx
    rw [hplacement key' hkey] at hx
    exact ⟨x, hx, rfl, id⟩

theorem cached_withCluster {c : Cluster scheme} (ht : t.world = s.world.withCluster c)
    (key : String × String) : t.cached key = s.cached key := by
  rw [History.cached, ht, History.cached]
  rfl

theorem last_of_api {call : ApiCall scheme} {r : (Call.api call).Answer}
    (hc : recording env key (.api call) s r t) : t.last = s.last :=
  hc.2.2.trans (Function.update_eq_self key s.last)

theorem minds_of_replaces {call : ApiCall scheme} {r : (Call.api call).Answer}
    {stored : WorkPlacement} {new : Option WorkPlacement} {c : Cluster scheme}
    (hc : recording env key (.api call) s r t) (hkey : stored.key = key)
    (hrep : Replaces (S := scheme) Kind.workPlacement stored new s.world.cluster c)
    (ht : t.world = s.world.withCluster c) : Minds key (.api call) s t := by
  refine minds_of_recording hc (fun id _ => ?_) fun key' hkey' => ?_
  · rw [ht]
    rfl
  · rw [ht]
    exact hrep.find_of_ne (hkey.symm ▸ hkey')

/-- A status that fails to be written may have been written all the same. -/
theorem judged_updateStatus {o : WorkPlacement} (hkey : o.key = key) (hs : Tells key A s) :
    Judged env key (fun r => ∀ x : WorkPlacement, r = .ok x → x.key = key ∧ x.status = o.status)
      (fun r l c v => (∃ v', A l c v' ∧ (v = v' ∨ v = o.status.versionID)) ∧
        (∀ x : WorkPlacement, r = .ok x → v = o.status.versionID) ∧
        ∀ e, r = .error e → o.status.versionID = l ∨ c = l)
      (Kratix.updateStatus .workPlacement o) s := by
  refine judged_perform fun t ht r u hc => ?_
  have hlast := last_of_api hc.1
  have hbefore := hs.untouched ht
  have hlost (e : ApiError) (hr : r = .error e) :
      o.status.versionID = t.last key ∨ t.cached key = t.last key := by
    subst hr
    have hkept := (Bool.and_eq_true_iff.mp hc.2).1
    simpa [keepsVersion] using hkept
  rcases exec_updateStatus (exec_perform.mpr hc.1.1) with
    ⟨hsame, hno⟩ | ⟨stored, c, hfind, hrep, hu, hx⟩
  · obtain ⟨world, last⟩ := u
    dsimp only at hsame hlast
    subst hsame hlast
    refine ⟨fun key' _ => Untouched.refl key' t, fun x hr => absurd hr (hno x), ?_⟩
    intro x hx hlive
    exact ⟨⟨_, hbefore x hx hlive, Or.inl rfl⟩, fun x hr => absurd hr (hno x), hlost⟩
  · have hstored : stored.key = key := (t.world.cluster.find_eq_some.mp hfind).2.trans hkey
    refine ⟨minds_of_replaces hc.1 hstored hrep hu, ?_, ?_⟩
    · rintro x rfl
      rw [hx x rfl]
      exact ⟨hstored, rfl⟩
    · intro y hy hlive
      have hself : u.world.placement key = some { stored with status := o.status } := by
        rw [hu, ← hstored]
        exact hrep.find_self
      obtain rfl := Option.some.inj (hself.symm.trans hy)
      rw [hlast, cached_withCluster hu]
      refine ⟨⟨_, hbefore stored (hkey ▸ hfind) hlive, Or.inr rfl⟩, fun _ _ => rfl, hlost⟩

theorem judged_updateObject {o : WorkPlacement} (hkey : o.key = key) (hs : Tells key A s) :
    Judged env key (fun _ => True) (fun _ => A) (updateObject .workPlacement o) s := by
  refine judged_perform fun t ht r u hc => ?_
  have hlast := last_of_api hc.1
  have hbefore := hs.untouched ht
  rcases exec_updateObject (exec_perform.mpr hc.1.1) with
    ⟨hsame, hno⟩ | ⟨stored, c, hfind, hrep, hu, -, -, -⟩
  · obtain ⟨world, last⟩ := u
    dsimp only at hsame hlast
    subst hsame hlast
    exact ⟨fun key' _ => Untouched.refl key' t, trivial, hbefore⟩
  · have hstored : stored.key = key := (t.world.cluster.find_eq_some.mp hfind).2.trans hkey
    refine ⟨minds_of_replaces hc.1 hstored hrep hu, trivial, fun y hy hlive => ?_⟩
    have hself : u.world.placement key = (stored.accept o).settle := by
      rw [hu, ← hstored]
      exact hrep.find_self
    obtain rfl := Object.settle_eq_some (hself.symm.trans hy)
    rw [hlast, cached_withCluster hu]
    exact hbefore stored (hkey ▸ hfind) hlive

/-- After an update of the files in a state with `A`: a version that is returned is the
last one now, and nothing but it is in the cache. -/
def Written {ε : Type} (A : String → String → String → Prop) :
    Except ε String → String → String → String → Prop
  | .error _, l, c, v => A l c v
  | .ok versionID, l, c, v =>
    if versionID = "" then A l c v else l = versionID ∧ (c = "" ∨ c = versionID) ∧ ∃ l', A l' c v

theorem judged_updateFiles (w : Writer) (dir : GoPath.Path) (name : String)
    (create : List Workload) (delete : List GoPath.Path) (hs : Tells key A s) :
    Judged env key (fun _ => True) (Written A) (updateFiles w dir name create delete) s := by
  refine judged_perform fun t ht r u hc => ?_
  have hbefore := hs.untouched ht
  obtain ⟨files, -, hu⟩ := hc.1.1
  refine ⟨minds_of_recording hc.1 (fun id _ => ?_) (fun key' _ => ?_), trivial, ?_⟩
  · rw [hu]
    rfl
  · rw [hu]
    rfl
  · intro x hx hlive
    have hcached : u.cached key = t.cached key := by
      rw [History.cached, hu, History.cached]
      rfl
    have hlast : u.last key = _ := congrFun hc.1.2.2 key
    rw [Function.update_self] at hlast
    have htells := hbefore x (by rw [hu] at hx; exact hx) hlive
    rw [hcached, hlast]
    cases r with
    | error e => exact htells
    | ok versionID =>
      dsimp only [returned, Written]
      split_ifs with hempty
      · exact htells
      · have hkept := (Bool.and_eq_true_iff.mp hc.2).2
        have hfree : t.cached key = "" ∨ t.cached key = versionID := by
          simpa [keepsCache, hempty] using hkept
        exact ⟨rfl, hfree, _, htells⟩

theorem judged_cachedVersion (hs : Tells key A s) :
    Judged env key (fun _ => True) (fun r l c v => A l c v ∧ c = r.getD "")
      (cachedVersion (uniqueID key)) s := by
  refine judged_perform fun t ht r u hc => ?_
  obtain rfl := eq_of_reads (by trivial) hc.1
  refine ⟨fun key' _ => Untouched.refl key' u, trivial, fun x hx hlive => ?_⟩
  exact ⟨(hs.untouched ht) x hx hlive, congrArg (fun r : Option String => r.getD "") hc.1.1.1.symm⟩

theorem judged_cacheVersion (versionID : Option String) (hs : Tells key A s) :
    Judged env key (fun _ => True) (fun _ l c v => c = versionID.getD "" ∧ ∃ c', A l c' v)
      (cacheVersion (uniqueID key) versionID) s := by
  refine judged_perform fun t ht r u hc => ?_
  have hu : u.world = t.world.withVersion (uniqueID key) versionID := hc.1.1
  have hlast : u.last = t.last := hc.1.2.2.trans (Function.update_eq_self key t.last)
  refine ⟨minds_of_recording hc.1 (fun id hid => ?_) (fun key' _ => ?_), trivial, ?_⟩
  · rw [hu]
    cases versionID with
    | none => exact AList.lookup_erase_ne hid
    | some v => exact AList.lookup_insert_ne hid
  · rw [hu, World.placement, World.cluster_withVersion]
  · intro x hx hlive
    rw [hu, World.placement, World.cluster_withVersion] at hx
    refine ⟨?_, _, hlast ▸ (hs.untouched ht) x hx hlive⟩
    rw [History.cached, hu]
    cases versionID with
    | none => exact congrArg (fun r : Option String => r.getD "") (AList.lookup_erase _ _)
    | some v => exact congrArg (fun r : Option String => r.getD "") (AList.lookup_insert _)

theorem Judged.call {call : Call} {P : call.Answer → Prop}
    {Q : call.Answer → String → String → String → Prop} {r : call.Answer}
    (hj : Judged env key P Q (Program.perform (S := signature) call) s)
    (hc : recordingWhen keepsBoth env key call s r t) : Minds key call s t ∧ Tells key (Q r) t := by
  obtain ⟨hminds, hend⟩ := hj s (Untouched.refl key s) r t hc
  exact ⟨hminds, (hend t (Untouched.refl key t)).2⟩

/-! ### Deleting -/

def Deletes (key : String × String) : Call → Prop
  | .updateFiles _ _ _ _ _ => True
  | .api (.update .workPlacement x) => x.key = key
  | call => Reads call

theorem reading_deletes : Reading (Deletes key) where
  get := fun _ _ _ => trivial
  placements := fun _ _ => trivial
  connect := fun _ => trivial
  read := fun _ _ => trivial

theorem judged_handleDeletion {wp : WorkPlacement} (hkey : wp.key = key)
    (found : Except ApiError Destination) (hs : Tells key (fun _ _ _ => False) s) :
    Judged env key (fun _ => True) (fun _ _ _ _ => False) (handleDeletion env wp found) s := by
  have hcalls : (handleDeletion env wp found).Calls (Deletes key) :=
    calls_handleDeletion reading_deletes (fun _ _ _ _ _ => trivial)
      (fun x hx => hx.trans hkey) found
  refine Within.imp (fun _ _ h => ⟨trivial, h⟩) (within_of_calls
    (I := Tells key fun _ _ _ => False) (fun _ _ => Tells.untouched) ?_ hcalls hs)
  intro call t r u hcall ht hc
  unfold Deletes at hcall
  split at hcall
  · obtain ⟨hminds, hu⟩ := (judged_updateFiles _ _ _ _ _ ht).call hc
    refine ⟨hminds, hu.imp fun l c v h => ?_⟩
    cases r with
    | error e => exact h
    | ok versionID =>
      dsimp only [Written] at h
      split_ifs at h
      obtain ⟨-, -, l', hfalse⟩ := h
      exact hfalse
  · exact (judged_updateObject hcall ht).call hc
  · obtain rfl := eq_of_reads hcall hc.1
    exact ⟨fun key' _ => Untouched.refl key' u, ht⟩

/-! ### Writing and reporting -/

/-- The last version is the one in the cache, or else the reported one. -/
def Remembered (l c v : String) : Prop := (if c = "" then v else c) = l

/-- This version is still to be reported. -/
def Owed (versionID l c v : String) : Prop :=
  if versionID = "" then Remembered l c v else l = versionID ∧ (c = "" ∨ c = versionID)

/-- The last version is reported, and no other one is in the cache. -/
def Current (l c v : String) : Prop := v = l ∧ (c = "" ∨ c = l)

theorem Current.remembered {l c v : String} (h : Current l c v) : Remembered l c v := by
  obtain ⟨rfl, rfl | rfl⟩ := h
  · exact if_pos rfl
  · exact ite_self _

variable {wp : WorkPlacement} {dest : Destination} {w : Writer}

theorem judged_storeUpdate (dir : GoPath.Path) (create : List Workload)
    (delete : List GoPath.Path) (hs : Tells key A s) :
    Judged env key (fun _ => True) (Written A) (storeUpdate w dir wp create delete) s := by
  refine judged_bind (judged_updateFiles _ _ _ _ _ hs) fun r t _ ht => ?_
  cases r <;> exact judged_pure trivial ht

theorem judged_writeWorkloadsToStateStore (hlive : wp.metadata.deleting = false)
    (hs : Tells key A s) :
    Judged env key (fun _ => True) (Written A) (writeWorkloadsToStateStore env w wp dest) s := by
  have hnot {p : Prop} (hd : wp.metadata.deleting = true) : p :=
    absurd (hlive.symm.trans hd) (by decide)
  unfold writeWorkloadsToStateStore
  split
  · refine judged_bind (judged_reads (calls_handleAggregatedYAML reading_reads _ hnot hnot) hs)
      fun r t _ ht => ?_
    cases r with
    | error e => exact judged_pure trivial ht
    | ok out => exact judged_storeUpdate _ _ _ ht
  · refine judged_bind (judged_reads (calls_generateKratixStateFile reading_reads) hs)
      fun r t _ ht => ?_
    cases r with
    | error e => exact judged_pure trivial ht
    | ok out =>
      dsimp only
      split
      · exact judged_pure trivial ht
      · exact judged_storeUpdate _ _ _ ht
  · split
    · exact judged_pure trivial hs
    · exact judged_storeUpdate _ _ _ hs

theorem judged_withConditions (hkey : wp.key = key) (conditions : List Condition)
    (hA : ∀ l c v, A l c v → v = wp.status.versionID) (hs : Tells key A s) :
    Judged env key (fun r => ∀ x : WorkPlacement, r = .ok x → x.key = key ∧
        x.status.versionID = wp.status.versionID)
      (fun r l c v => A l c v ∧ ∀ e, r = .error e → wp.status.versionID = l ∨ c = l)
      (Kratix.updateStatus .workPlacement (withConditions wp conditions)) s := by
  refine (judged_updateStatus (o := withConditions wp conditions) hkey hs).imp ?_ ?_
  · intro r hr x hx
    obtain ⟨hx, hstatus⟩ := hr x hx
    exact ⟨hx, by rw [hstatus, withConditions]⟩
  · rintro r l c v - ⟨⟨v', hv', hv⟩, -, herror⟩
    have heq : v = v' := hv.elim id fun h => h.trans (hA l c v' hv').symm
    exact ⟨heq ▸ hv', herror⟩

theorem judged_setWriteFailStatusConditions (hkey : wp.key = key) (err : Failure)
    (hA : ∀ l c v, A l c v → v = wp.status.versionID) (hs : Tells key A s) :
    Judged env key (fun _ => True) (fun _ => A) (setWriteFailStatusConditions wp err) s := by
  unfold setWriteFailStatusConditions
  dsimp only
  split
  · refine judged_bind (judged_withConditions hkey _ hA hs) fun r t _ ht => ?_
    exact judged_pure trivial (ht.imp fun l c v h => h.1)
  · exact judged_pure trivial hs

/-- A part of the reconcile stops it without success, or it goes on with `p`. -/
def Goes {β : Type} (p : β → Prop) : Except ReconcileResult β → Prop
  | .error result => result ≠ {}
  | .ok x => p x

/-- When it stops the last version is remembered, when it goes on `B` holds. -/
def Proceeds {β : Type} (B : β → String → String → String → Prop) :
    Except ReconcileResult β → String → String → String → Prop
  | .error _ => Remembered
  | .ok x => B x

theorem judged_writeToStateStore (hkey : wp.key = key) (hlive : wp.metadata.deleting = false)
    (hs : Tells key (fun l c v => Remembered l c v ∧ v = wp.status.versionID) s) :
    Judged env key (Goes fun x => x.1.key = key)
      (Proceeds fun x l c v => v = x.1.status.versionID ∧ Owed x.2 l c v)
      (writeToStateStore env wp dest) s := by
  refine judged_bind (judged_reads (calls_newWriter reading_reads _ _) hs) fun r t _ ht => ?_
  split
  · exact judged_pure (by simp [Goes]) (ht.imp fun l c v h => h.1)
  · exact judged_pure (by simp [Goes]) (ht.imp fun l c v h => h.1)
  · refine judged_bind (judged_writeWorkloadsToStateStore hlive ht) fun r u _ hu => ?_
    cases r with
    | error e =>
      refine judged_bind (judged_setWriteFailStatusConditions hkey e
        (fun l c v h => h.2) hu) fun r v _ hv => ?_
      exact judged_pure (by simp [Goes]) (hv.imp fun l c v h => h.1)
    | ok versionID =>
      have howed : Tells key (fun l c v => v = wp.status.versionID ∧ Owed versionID l c v) u := by
        refine hu.imp fun l c v h => ?_
        dsimp only [Written] at h
        unfold Owed
        split_ifs at h ⊢
        · exact ⟨h.2, h.1⟩
        · obtain ⟨hl, hc, l', -, hv⟩ := h
          exact ⟨hv, hl, hc⟩
      dsimp only
      split
      · exact judged_pure hkey howed
      · refine judged_bind (judged_withConditions hkey _ (fun l c v h => h.1) howed)
          fun r x hr hx => ?_
        cases r with
        | error e =>
          -- the version is either reported already or in the cache
          refine judged_pure (by simp [Goes]) (hx.imp ?_)
          rintro l c v ⟨⟨rfl, howed⟩, hkept⟩
          have hkept := hkept e rfl
          unfold Owed at howed
          split_ifs at howed with hempty
          · exact howed
          · obtain ⟨rfl, hc⟩ := howed
            change (if c = "" then _ else c) = l
            split_ifs with hcache
            · exact hkept.resolve_right fun h => hempty (h.symm.trans hcache)
            · exact hc.resolve_left hcache
        | ok stored =>
          obtain ⟨hstored, hversion⟩ := hr stored rfl
          exact judged_pure hstored (hx.imp fun l c v h => ⟨h.1.1.trans hversion.symm, h.1.2⟩)

/-- The version to report is the last one; with nothing to report, the last one is
reported. -/
def Due (versionID l c v : String) : Prop :=
  if versionID = "" then c = "" ∧ v = l else l = versionID ∧ (c = "" ∨ c = versionID)

theorem judged_versionToReport (hkey : wp.key = key) (versionID : String)
    (hs : Tells key (fun l c v => v = wp.status.versionID ∧ Owed versionID l c v) s) :
    Judged env key (fun _ => True)
      (fun reported l c v => v = wp.status.versionID ∧ Due reported l c v)
      (versionToReport wp versionID) s := by
  have hid : getUniqueID wp = uniqueID key := hkey ▸ rfl
  unfold versionToReport
  rw [hid]
  refine judged_bind (judged_cachedVersion hs) fun cached t _ ht => ?_
  dsimp only
  split
  · next hcached =>
    obtain ⟨hempty, hne⟩ : versionID = "" ∧ cached.getD "" ≠ "" := by simpa using hcached
    refine judged_bind (judged_cacheVersion none ht) fun _ u _ hu => ?_
    refine judged_pure trivial (hu.imp ?_)
    rintro l c v ⟨hc, c', ⟨hv, howed⟩, rfl⟩
    unfold Owed Remembered at howed
    rw [if_pos hempty, if_neg hne] at howed
    unfold Due
    rw [if_neg hne]
    exact ⟨hv, howed.symm, Or.inl hc⟩
  · next hcached =>
    refine judged_pure trivial (ht.imp ?_)
    rintro l c v ⟨⟨hv, howed⟩, rfl⟩
    unfold Owed Remembered at howed
    unfold Due
    refine ⟨hv, ?_⟩
    split_ifs at howed ⊢ with hempty hnone
    · exact ⟨hnone, howed⟩
    · exact absurd (show versionID = "" ∧ cached.getD "" ≠ "" from ⟨hempty, hnone⟩)
        (by simpa using hcached)
    · exact howed

theorem judged_updateVersion (hkey : wp.key = key) (versionID : String)
    (hs : Tells key (fun l c v => v = wp.status.versionID ∧ Owed versionID l c v) s) :
    Judged env key (Goes fun x => x.key = key)
      (Proceeds fun x l c v => v = x.status.versionID ∧ Current l c v)
      (WorkPlacementController.updateStatus wp versionID) s := by
  have hid : getUniqueID wp = uniqueID key := hkey ▸ rfl
  unfold WorkPlacementController.updateStatus
  rw [hid]
  refine judged_bind (judged_versionToReport hkey versionID hs) fun reported t _ ht => ?_
  split
  · next hnew =>
    obtain ⟨hne, -⟩ : reported ≠ "" ∧ wp.status.versionID ≠ reported := by simpa using hnew
    have hdue : Tells key (fun l c _ => l = reported ∧ (c = "" ∨ c = reported)) t := by
      refine ht.imp fun l c v h => ?_
      unfold Due at h
      rw [if_neg hne] at h
      exact h.2
    refine judged_bind (judged_updateStatus (o := { wp with
      status := { wp.status with versionID := reported } }) hkey hdue) fun r u hr hu => ?_
    -- a version that was not reported goes into the cache
    have hcache : Judged env key (fun _ => True) (fun _ => Remembered)
        (cacheVersion (uniqueID key) (some reported)) u := by
      refine (judged_cacheVersion (some reported) hu).imp (fun _ => id) ?_
      rintro _ l c v - ⟨rfl, c', ⟨v', ⟨rfl, -⟩, -⟩, -⟩
      exact if_neg hne
    split
    · exact judged_bind hcache fun _ x _ hx => judged_pure (by simp [Goes]) hx
    · exact judged_bind hcache fun _ x _ hx => judged_pure (by simp [Goes]) hx
    · next stored =>
      obtain ⟨hstored, hstatus⟩ := hr stored rfl
      refine judged_pure hstored (hu.imp ?_)
      rintro l c v ⟨⟨v', ⟨rfl, hc⟩, -⟩, hok, -⟩
      have hv : v = l := hok stored rfl
      exact ⟨by rw [hstatus, hv], hv, hc⟩
  · next hold =>
    refine judged_pure hkey (ht.imp ?_)
    rintro l c v ⟨hv, hdue⟩
    unfold Due at hdue
    refine ⟨hv, ?_⟩
    split_ifs at hdue with hempty
    · exact ⟨hdue.2, Or.inl hdue.1⟩
    · obtain ⟨rfl, hc⟩ := hdue
      have hsame : wp.status.versionID = l := by simpa [hempty] using hold
      exact ⟨hv.trans hsame, hc⟩

theorem judged_setWorkplacementReady (hkey : wp.key = key)
    (hs : Tells key (fun l c v => v = wp.status.versionID ∧ Current l c v) s) :
    Judged env key (fun _ => True) (fun _ => Current) (setWorkplacementReady wp) s := by
  unfold setWorkplacementReady
  dsimp only
  split
  · split
    · exact judged_pure trivial (hs.imp fun l c v h => h.2)
    · refine judged_bind (judged_withConditions hkey _ (fun l c v h => h.1) hs) fun r t _ ht => ?_
      cases r <;> exact judged_pure trivial (ht.imp fun l c v h => h.1.2)
  · exact judged_pure trivial (hs.imp fun l c v h => h.2)

theorem key_addFinalizers (finalizers : List String) :
    (finalizers.foldl addFinalizer wp).key = wp.key := by
  induction finalizers generalizing wp with
  | nil => rfl
  | cons f rest ih =>
    refine ih.trans ?_
    unfold addFinalizer
    split <;> rfl

theorem judged_reconcileWritten (hkey : wp.key = key) (versionID : String)
    (hs : Tells key (fun l c v => v = wp.status.versionID ∧ Owed versionID l c v) s) :
    Judged env key (fun _ => True)
      (fun result l c v => Remembered l c v ∧ (result = {} → v = l))
      (reconcileWritten wp dest versionID) s := by
  have hend {l c v : String} {result : ReconcileResult} (h : Current l c v) :
      Remembered l c v ∧ (result = {} → v = l) := ⟨h.remembered, fun _ => h.1⟩
  refine judged_bind (judged_updateVersion hkey versionID hs) fun r t hr ht => ?_
  cases r with
  | error result =>
    exact judged_pure trivial (ht.imp fun l c v h => ⟨h, fun hresult => absurd hresult hr⟩)
  | ok x =>
    dsimp only
    split
    · exact (judged_setWorkplacementReady hr ht).imp (fun _ => id) fun _ l c v _ => hend
    · refine judged_bind (judged_updateObject ((key_addFinalizers _).trans hr) ht)
        fun r u _ hu => ?_
      cases r <;> exact judged_pure trivial (hu.imp fun l c v h => hend h.2)

/-- After a successful reconcile the last version is reported, and it is never forgotten. -/
theorem judged_reconcile (hs : Tells key Remembered s) :
    Judged env key (fun _ => True)
      (fun result l c v => Remembered l c v ∧ (result = {} → v = l))
      (reconcile env key.1 key.2) s := by
  refine judged_bind (judged_getObject hs) fun r t hr ht => ?_
  split
  · exact judged_pure trivial (ht.imp fun l c v h => absurd rfl h.2.1)
  · exact judged_pure trivial (ht.imp fun l c v h => ⟨h.1, fun hresult => by cases hresult⟩)
  · next wp =>
    have hkey := hr wp rfl
    have hread : Tells key (fun l c v => wp.metadata.deleting = false ∧ Remembered l c v ∧
        v = wp.status.versionID) t :=
      ht.imp fun l c v h => ⟨(h.2.2 wp rfl).1, h.1, (h.2.2 wp rfl).2⟩
    refine judged_bind (judged_reads (calls_perform.mpr trivial) hread) fun found u _ hu => ?_
    split
    · next hdeleting =>
      refine (judged_handleDeletion hkey found (hu.imp fun l c v h => ?_)).imp (fun _ => id)
        fun _ _ _ _ _ h => h.elim
      exact absurd (h.1.symm.trans hdeleting) (by decide)
    · next hlive =>
      split
      · exact judged_pure trivial (hu.imp fun l c v h => ⟨h.2.1, fun hresult => by cases hresult⟩)
      · refine judged_bind (judged_writeToStateStore hkey (by simpa using hlive)
          (hu.imp fun l c v h => h.2)) fun r x hr hx => ?_
        cases r with
        | error result =>
          exact judged_pure trivial (hx.imp fun l c v h => ⟨h, fun hresult => absurd hresult hr⟩)
        | ok out => exact judged_reconcileWritten hr out.2 hx

/-! ### All reconciles -/

variable {ι : Type} [DecidableEq ι]

theorem tells_start {s : World} (hcache : s.versionCache = ∅) (key : String × String) :
    Tells key Remembered (History.start s) := by
  intro x hx _
  have hlast : (History.start s).last key = x.status.versionID := by
    change ((s.placement key).map _).getD "" = _
    rw [show s.placement key = some x from hx]
    rfl
  rw [hlast, History.cached, show (History.start s).world.versionCache = ∅ from hcache]
  rfl

/-- When no version is lost and no two WorkPlacements have the same name in the cache, a
WorkPlacement whose reconcile was successful reports its last version, in any interleaving
and unless it is deleted. -/
theorem last_version_reported (env : Externals) {key : ι → String × String}
    (hids : Function.Injective fun i => uniqueID (key i)) {s : World} (hcache : s.versionCache = ∅)
    {pool : ι → Prog ReconcileResult} {t : History}
    (hrun : Turns (fun i => recordingWhen keepsBoth env (key i)) (reconciles env key) Elsewhere
      (reconciles env key, History.start s) (pool, t)) {i : ι} (hdone : pool i = .done {})
    {x : WorkPlacement} (hx : t.world.placement (key i) = some x)
    (hlive : x.metadata.deleting = false) : x.status.versionID = t.last (key i) := by
  have hjudged (j : ι) : Judged env (key j) (fun _ => True)
      (fun result l c v => Remembered l c v ∧ (result = {} → v = l)) (pool j) t := by
    refine Turns.within (R := fun j => Untouched (key j)) (G := fun j => Minds (key j))
      (Q := fun j result t => True ∧ Tells (key j)
        (fun l c v => Remembered l c v ∧ (result = {} → v = l)) t) ?_ ?_ ?_ ?_ ?_ hrun ?_ j
    · exact fun j s t u => Untouched.trans
    · exact fun j => Untouched.refl (key j)
    · exact fun i j c s t hij hminds => hminds (key j) fun hid => hij (hids hid).symm
    · exact fun j s t => Untouched.of_elsewhere
    · exact fun j result s hs => judged_reconcile (hs.2.imp fun l c v h => h.1)
    · exact fun j => judged_reconcile (tells_start hcache (key j))
  have hend := hjudged i
  rw [hdone] at hend
  exact ((hend t (Untouched.refl _ t)).2 x hx hlive).2 rfl

/-! ### Runs -/

/-- One outcome of each call: the statuses that `fails` says are not written, and an update
that changes anything returns this version. -/
def serveVersion (env : Externals) (key : String × String) (fails : WorkPlacement → Bool)
    (versionID : String) : (call : Call) → History → Option (call.Answer × History)
  | .api (.updateStatus .workPlacement o), s =>
    if fails o then some (.error .conflict, s)
    else (serveCall env (.api (.updateStatus .workPlacement o)) s.world).map
      fun out => (out.1, ⟨out.2, s.last⟩)
  | .updateFiles w dir _ create delete, s =>
    match updated env (cloneDirectory "") w dir create delete (s.world.files w.backend) with
    | .error _ => none
    | .ok files =>
      if files.same (s.world.files w.backend) then
        some (.ok "", ⟨s.world.withFiles w.backend files, s.last⟩)
      else some (.ok versionID,
        ⟨s.world.withFiles w.backend files, Function.update s.last key versionID⟩)
  | call, s => (serveCall env call s.world).map fun out => (out.1, ⟨out.2, s.last⟩)

theorem recording_of_serveCall {call : Call} {r : call.Answer}
    (hcall : ∀ w dir name create delete, call ≠ .updateFiles w dir name create delete)
    (h : ((serveCall env call s.world).map fun out => (out.1, (⟨out.2, s.last⟩ : History))) =
      some (r, t)) : recording env key call s r t := by
  obtain ⟨out, hout, heq⟩ := Option.map_eq_some_iff.mp h
  cases heq
  refine ⟨faulty_of_serveCall call s.world _ _ hout, ?_, ?_⟩
  · cases call with
    | updateFiles w dir name create delete => exact absurd rfl (hcall w dir name create delete)
    | _ => trivial
  · cases call with
    | updateFiles w dir name create delete => exact absurd rfl (hcall w dir name create delete)
    | _ => exact (Function.update_eq_self key s.last).symm

theorem recording_of_serveVersion {fails : WorkPlacement → Bool} {versionID : String}
    (hne : versionID ≠ "") (call : Call) (s : History) (r : call.Answer) (t : History)
    (h : serveVersion env key fails versionID call s = some (r, t)) :
    recording env key call s r t := by
  unfold serveVersion at h
  split at h
  · split_ifs at h
    · cases h
      refine ⟨⟨_, Or.inr ⟨.conflict, rfl, rfl, Or.inl rfl⟩, rfl⟩, trivial, ?_⟩
      exact (Function.update_eq_self key s.last).symm
    · exact recording_of_serveCall (fun _ _ _ _ _ hcall => by cases hcall) h
  · next w dir name create delete =>
    split at h
    · cases h
    · next files hfiles =>
      have hlookup (q : GoPath.Path) :
          ((s.world.withFiles w.backend files).files w.backend).lookup q = files.lookup q := by
        exact congrArg (AList.lookup q) (Function.update_self ..)
      split_ifs at h with hsame
      · cases h
        refine ⟨⟨files, mayFailToUpdate_of_updated hfiles "", rfl⟩, ?_, ?_⟩
        · refine iff_of_true rfl fun q => ?_
          rw [hlookup]
          exact GoPath.FileMap.same_iff.mp hsame q
        · exact (Function.update_eq_self key s.last).symm
      · cases h
        refine ⟨⟨files, mayFailToUpdate_of_updated hfiles versionID, rfl⟩, ?_, ?_⟩
        · refine iff_of_false hne fun hall => hsame (GoPath.FileMap.same_iff.mpr fun q => ?_)
          rw [← hlookup]
          exact hall q
        · rw [returned, if_neg hne]
  · next hstatus hfiles =>
    exact recording_of_serveCall (fun w dir name create delete hcall =>
      hfiles w dir name create delete hcall) h

/-- The outcomes of one run of a reconcile. -/
structure Choice where
  /-- Statuses that are not written. -/
  fails : WorkPlacement → Bool := fun _ => false
  /-- What an update returns. -/
  versionID : String
  nonempty : versionID ≠ "" := by decide

section

variable {allowed : String × String → History → (call : Call) → call.Answer → Bool}
  {key : ι → String × String} {results results' : ι → Option ReconcileResult}

/-- The outcome of `serveVersion`, if it is allowed. -/
def serveWhen (allowed : String × String → History → (call : Call) → call.Answer → Bool)
    (env : Externals) (key : ι → String × String) (i : ι) (choice : Choice) (call : Call)
    (s : History) : Option (call.Answer × History) :=
  (serveVersion env (key i) choice.fails choice.versionID call s).filter
    fun out => allowed (key i) s call out.1

def run (allowed : String × String → History → (call : Call) → call.Answer → Bool)
    (key : ι → String × String) (l : List (ι × Choice))
    (x : (ι → Option ReconcileResult) × History) :
    Option ((ι → Option ReconcileResult) × History) :=
  evalTurns (serveWhen allowed plainExternals key) (reconciles plainExternals key) l x

theorem turns_of_run {l : List (ι × Choice)}
    (hrun : run allowed key l (results, s) = some (results', t)) :
    Turns (fun i => recordingWhen allowed plainExternals (key i)) (reconciles plainExternals key)
      Elsewhere (ended (reconciles plainExternals key) results, s)
      (ended (reconciles plainExternals key) results', t) := by
  refine Turns.of_evalTurns (fun i choice call s r t h => ?_) hrun
  obtain ⟨hserve, hallowed⟩ := Option.filter_eq_some_iff.mp h
  exact ⟨recording_of_serveVersion choice.nonempty call s r t hserve, hallowed⟩

/-- Some WorkPlacement does not report its last version after a successful reconcile. -/
def Misreports (allowed : String × String → History → (call : Call) → call.Answer → Bool)
    (env : Externals) (key : ι → String × String) (s : World) : Prop :=
  ∃ pool t i x, Turns (fun i => recordingWhen allowed env (key i)) (reconciles env key) Elsewhere
      (reconciles env key, History.start s) (pool, t) ∧
    pool i = .done {} ∧ t.world.placement (key i) = some x ∧ x.metadata.deleting = false ∧
    x.status.versionID ≠ t.last (key i)

/-- Decides whether the WorkPlacement reports another version than its last one. -/
def isMisreported (key : String × String) (s : History) : Bool :=
  (s.world.placement key).any fun x => !x.metadata.deleting && x.status.versionID != s.last key

theorem misreports_of_turns {s : World}
    (hrun : Turns (fun i => recordingWhen allowed env (key i)) (reconciles env key) Elsewhere
      (reconciles env key, History.start s) (ended (reconciles env key) results, t)) (i : ι)
    (hend : (results i == some {} && isMisreported (key i) t) = true) :
    Misreports allowed env key s := by
  obtain ⟨hresult, hwrong⟩ := Bool.and_eq_true_iff.mp hend
  obtain ⟨x, hx, hbad⟩ := (Option.any_eq_true _ _).mp hwrong
  have hdone : ended (reconciles env key) results i = .done {} :=
    ended_of_some (beq_iff_eq.mp hresult)
  simp only [Bool.and_eq_true, bne_iff_ne, Bool.not_eq_true'] at hbad
  exact ⟨_, t, i, x, hrun, hdone, hx, hbad.1, hbad.2⟩

end

def placementOf (key : String × String) (promiseName : String) : WorkPlacement :=
  ⟨{ ns := key.1, name := key.2 },
    { targetDestinationName := "destination", promiseName := promiseName, id := "group",
      workloads := [⟨["file.yaml"], [1]⟩] }, {}⟩

def clusterAfter (calls : List (ApiCall scheme)) : Cluster scheme :=
  calls.foldl (fun c call => (serve call c).2) (Cluster.empty scheme)

/-- A Destination, its state store and these WorkPlacements. -/
def worldOf (placements : List WorkPlacement) : World where
  cluster := clusterAfter (.create .destination nestedDestination ::
    .create (.stateStore .bucket) bucketStore ::
    placements.map fun x => ApiCall.create (S := scheme) Kind.workPlacement x)

def onePlacement (_ : Unit) : String × String := ("default", "placement")

def oneWorld : World := worldOf [placementOf (onePlacement ()) "promise"]

/-- Two WorkPlacements with the same name in the cache. -/
def twoPlacements : Bool → String × String
  | false => ("team", "a-b")
  | true => ("team-a", "b")

def twoWorld : World :=
  worldOf [placementOf (twoPlacements false) "first", placementOf (twoPlacements true) "second"]

/-- The version is returned, but cannot be reported. -/
def failsToReport : Choice where
  fails x := x.status.versionID != ""
  versionID := "v1"

set_option maxRecDepth 8192 in
/-- The status that tells of the write is not written, and with it goes the version. -/
theorem misreports_of_lost : Misreports keepsCache plainExternals onePlacement oneWorld := by
  have hrun : (run keepsCache onePlacement [((), { fails := fun _ => true, versionID := "v1" }),
      ((), { versionID := "v2" })] (fun _ => none, History.start oneWorld)).any
      (fun x => x.1 () == some {} && isMisreported (onePlacement ()) x.2) = true := by
    decide +kernel
  obtain ⟨⟨results, t⟩, ht, hend⟩ := (Option.any_eq_true _ _).mp hrun
  exact misreports_of_turns (turns_of_run ht) () hend

/-- The specification of a WorkPlacement is changed. -/
def respecify (o : WorkPlacement) (s : History) : History :=
  ⟨s.world.withCluster (serve (S := scheme) (.update .workPlacement o) s.world.cluster).2, s.last⟩

theorem elsewhere_respecify (o : WorkPlacement) (s : History) : Elsewhere s (respecify o s) where
  last := rfl
  cache := rfl
  placement := by
    intro key x' hx'
    have hupdate : Exec (faulty plainExternals) (updateObject .workPlacement o) s.world
        (serve (S := scheme) (.update .workPlacement o) s.world.cluster).1 (respecify o s).world :=
      exec_perform.mpr ⟨_, Or.inl ⟨rfl, rfl⟩, rfl⟩
    rcases exec_updateObject hupdate with ⟨hsame, -⟩ | ⟨stored, c, hfind, hrep, hu, -⟩
    · rw [hsame] at hx'
      exact ⟨x', hx', rfl, id⟩
    · rw [hu] at hx'
      by_cases hkey : key = stored.key
      · subst hkey
        obtain rfl := Object.settle_eq_some (hrep.find_self.symm.trans hx')
        exact ⟨stored, Cluster.find_key hrep.stored_mem, rfl, id⟩
      · exact ⟨x', (hrep.find_of_ne hkey).symm.trans hx', rfl, id⟩

/-- Another content is to be written. -/
def rewritten (x : WorkPlacement) : WorkPlacement :=
  { x with spec := { x.spec with workloads := [⟨["file.yaml"], [2]⟩] } }

set_option maxRecDepth 8192 in
/-- A version is cached, a later one is reported, and then the cached one. -/
theorem misreports_of_cached : Misreports keepsVersion plainExternals onePlacement oneWorld := by
  have hrun : ((run keepsVersion onePlacement [((), failsToReport)]
      (fun _ => none, History.start oneWorld)).bind fun x =>
      run keepsVersion onePlacement [((), { versionID := "v2" }), ((), { versionID := "v3" })]
        (x.1, respecify (rewritten (placementOf (onePlacement ()) "promise")) x.2)).any
      (fun x => x.1 () == some {} && isMisreported (onePlacement ()) x.2) = true := by
    decide +kernel
  obtain ⟨⟨results, t⟩, ht, hend⟩ := (Option.any_eq_true _ _).mp hrun
  obtain ⟨⟨results', u⟩, hu, hrest⟩ := Option.bind_eq_some_iff.mp ht
  have hchanged := (turns_of_run hu).tail
    (.surroundings (elsewhere_respecify (rewritten (placementOf (onePlacement ()) "promise")) u))
  exact misreports_of_turns (hchanged.trans (turns_of_run hrest)) () hend

set_option maxRecDepth 8192 in
/-- The version of another WorkPlacement is taken from the cache. -/
theorem misreports_of_collision : Misreports keepsBoth plainExternals twoPlacements twoWorld := by
  have hrun : (run keepsBoth twoPlacements [(false, { versionID := "v0" }), (true, failsToReport),
      (false, { versionID := "v2" })] (fun _ => none, History.start twoWorld)).any
      (fun x => x.1 false == some {} && isMisreported (twoPlacements false) x.2) = true := by
    decide +kernel
  obtain ⟨⟨results, t⟩, ht, hend⟩ := (Option.any_eq_true _ _).mp hrun
  exact misreports_of_turns (turns_of_run ht) false hend

/-- None of the conditions can be left out. -/
theorem last_version_misreported :
    Misreports keepsCache plainExternals onePlacement oneWorld ∧
      Misreports keepsVersion plainExternals onePlacement oneWorld ∧
      Misreports keepsBoth plainExternals twoPlacements twoWorld :=
  ⟨misreports_of_lost, misreports_of_cached, misreports_of_collision⟩

set_option maxRecDepth 8192 in
theorem last_version_reported_sample :
    ∃ (pool : Unit → Prog ReconcileResult) (t : History) (x : WorkPlacement),
      Turns (fun i => recordingWhen keepsBoth plainExternals (onePlacement i))
        (reconciles plainExternals onePlacement) Elsewhere
        (reconciles plainExternals onePlacement, History.start oneWorld) (pool, t) ∧
      pool () = .done {} ∧ t.world.placement (onePlacement ()) = some x ∧
      x.status.versionID = "v1" ∧ x.status.versionID = t.last (onePlacement ()) := by
  have hrun : (run keepsBoth onePlacement [((), failsToReport), ((), { versionID := "v2" })]
      (fun _ => none, History.start oneWorld)).any (fun x => x.1 () == some {} &&
        (x.2.world.placement (onePlacement ())).any fun x =>
          !x.metadata.deleting && x.status.versionID == "v1") = true := by
    decide +kernel
  obtain ⟨⟨results, t⟩, ht, hend⟩ := (Option.any_eq_true _ _).mp hrun
  obtain ⟨hresult, hany⟩ := Bool.and_eq_true_iff.mp hend
  obtain ⟨x, hx, hgood⟩ := (Option.any_eq_true _ _).mp hany
  simp only [Bool.and_eq_true, beq_iff_eq, Bool.not_eq_true'] at hgood
  have hdone : ended (reconciles plainExternals onePlacement) results () = .done {} :=
    ended_of_some (beq_iff_eq.mp hresult)
  exact ⟨_, t, x, turns_of_run ht, hdone, hx, hgood.2, last_version_reported plainExternals
    (fun _ _ _ => rfl) rfl (turns_of_run ht) hdone hx hgood.1⟩

end Kratix.Versions
