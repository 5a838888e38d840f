import Kratix.Calls
import Kratix.WorkCreator

/-!
# What the work creator leaves in the cluster

An execution creates one Work or gives one existing Work a new specification,
or it leaves everything as it was, whatever faults it meets.
-/

namespace Kratix

open Apiserver Effect GoPath

variable {env : Externals} {s t : World}

theorem exec_getExistingWorks {ns : String} {labels : Labels} {r : Except Failure (List Work)}
    (he : Exec (faulty env) (getExistingWorks env ns labels) s r t) :
    t = s ∧ ∀ works, r = .ok works →
      ∃ sel, env.parseLabels labels = some sel ∧ works = s.cluster.listed .work ns sel := by
  unfold getExistingWorks at he
  split at he
  · obtain ⟨rfl, rfl⟩ := he
    exact ⟨rfl, fun works h => by cases h⟩
  · next sel hsel =>
    obtain ⟨a, u, hlist, he⟩ := exec_bind.mp he
    obtain ⟨rfl, hl⟩ := exec_listObjects hlist
    cases a with
    | error e =>
      obtain ⟨rfl, rfl⟩ := he
      exact ⟨rfl, fun works h => by cases h⟩
    | ok l =>
      obtain ⟨rfl, rfl⟩ := he
      refine ⟨rfl, ?_⟩
      rintro works h
      cases h
      exact ⟨sel, hsel, hl l rfl⟩

theorem exec_getWork {ns : String} {labels : Labels} {r : Except Failure (Option Work)}
    (he : Exec (faulty env) (getWork env ns labels) s r t) :
    t = s ∧ ∀ found, r = .ok found →
      ∃ sel, env.parseLabels labels = some sel ∧
        s.cluster.listed .work ns sel = found.toList := by
  obtain ⟨a, u, hw, he⟩ := exec_bind.mp he
  obtain ⟨rfl, hl⟩ := exec_getExistingWorks hw
  rcases a with e | (_ | ⟨w, _ | ⟨w', ws⟩⟩)
  · obtain ⟨rfl, rfl⟩ := he
    exact ⟨rfl, fun w h => by cases h⟩
  · obtain ⟨rfl, rfl⟩ := he
    refine ⟨rfl, ?_⟩
    rintro found h
    cases h
    obtain ⟨sel, hsel, hlist⟩ := hl _ rfl
    exact ⟨sel, hsel, hlist.symm⟩
  · obtain ⟨rfl, rfl⟩ := he
    refine ⟨rfl, ?_⟩
    rintro found h
    cases h
    obtain ⟨sel, hsel, hlist⟩ := hl _ rfl
    exact ⟨sel, hsel, hlist.symm⟩
  · obtain ⟨rfl, rfl⟩ := he
    exact ⟨rfl, fun w h => by cases h⟩

theorem passes_getWork {ns : String} {labels : Labels}
    (hp : Passes (faulty env) (getWork env ns labels) s t) : t = s := by
  have hexisting : ∀ {u}, Passes (faulty env) (getExistingWorks env ns labels) s u → u = s := by
    intro u hu
    unfold getExistingWorks at hu
    split at hu
    · exact hu
    · rcases passes_bind.mp hu with hlist | ⟨a, v, hlist, hu⟩
      · rcases passes_perform.mp hlist with rfl | ⟨r, hr⟩
        · rfl
        · exact (exec_listObjects (exec_perform.mpr hr)).1
      · obtain ⟨rfl, -⟩ := exec_listObjects hlist
        cases a <;> exact hu
  rcases passes_bind.mp hp with hworks | ⟨a, u, hworks, hp⟩
  · exact hexisting hworks
  · obtain ⟨rfl, -⟩ := exec_getExistingWorks hworks
    rcases a with e | (_ | ⟨w, _ | ⟨w', ws⟩⟩) <;> exact hp

namespace WorkCreator

variable {args : WorkCreatorArgs} {root : FileTree Bytes}

/-- What the writing call of an execution does: it creates the Work of these groups,
or gives the one Work that is listed these groups. -/
inductive Applies (env : Externals) (args : WorkCreatorArgs) (groups : List WorkloadGroup)
    (s t : World) : Prop
  | creates (uuid : String) (sel : Selector) (c : Cluster scheme)
      (hfresh : IsFresh s.cluster uuid) (hsel : env.parseLabels (workLabels args) = some sel)
      (hlisted : s.cluster.listed .work (ns args) sel = [])
      (hadd : Adds (S := scheme) .work (newWork args groups uuid) s.cluster c)
      (ht : t = s.withCluster c)
  | updates (current : Work) (sel : Selector) (c : Cluster scheme)
      (hsel : env.parseLabels (workLabels args) = some sel)
      (hlisted : s.cluster.listed .work (ns args) sel = [current])
      (hrep : Replaces (S := scheme) .work current
        (Object.settle { current with
          spec := ⟨groups, args.promiseName, args.resourceName⟩ }) s.cluster c)
      (ht : t = s.withCluster c)

/-- The one call of an execution that writes. -/
def write (work : Work) : Option Work → Prog (Except ApiError Work)
  | none => createObject .work work
  | some current => updateObject .work { current with spec := work.spec }

theorem exec_write {groups : List WorkloadGroup} {uuid : String} {sel : Selector}
    {found : Option Work} {r : Except ApiError Work}
    (hfresh : IsFresh s.cluster uuid) (hsel : env.parseLabels (workLabels args) = some sel)
    (hlisted : s.cluster.listed .work (ns args) sel = found.toList)
    (he : Exec (faulty env) (write (newWork args groups uuid) found) s r t) :
    (t = s ∧ ∀ w, r ≠ .ok w) ∨ Applies env args groups s t := by
  cases found with
  | none =>
    rcases exec_createObject he with hno | ⟨c, hadd, rfl, -⟩
    · exact Or.inl hno
    · exact Or.inr (.creates uuid sel c hfresh hsel hlisted hadd rfl)
  | some current =>
    have hmem : current ∈ s.cluster.listed .work (ns args) sel := by
      rw [hlisted]
      exact List.mem_singleton.mpr rfl
    have hfind : s.cluster.find .work current.key = some current :=
      s.cluster.find_eq_some.mpr ⟨(Cluster.mem_listed.mp hmem).1, rfl⟩
    rcases exec_updateObject he with hno | ⟨stored, c, hstored, hrep, rfl, -, -, -⟩
    · exact Or.inl hno
    · change s.cluster.find .work current.key = some stored at hstored
      rw [hfind] at hstored
      cases hstored
      exact Or.inr (.updates current sel c hsel hlisted hrep rfl)

/-- There is one write in an execution, so every moment is before or after it. -/
theorem passes_execute (hp : Passes (faulty env) (execute env args root) s t) :
    t = s ∨ ∃ groups, getWorkloadGroups env root args.workflowType = .ok groups ∧
      Applies env args groups s t := by
  unfold execute at hp
  split at hp
  · exact Or.inl hp
  next groups hgroups =>
  rcases passes_bind.mp hp with huuid | ⟨uuid, u, huuid, happly⟩
  · rcases passes_perform.mp huuid with h | ⟨r, -, h⟩ <;> exact Or.inl h
  obtain ⟨hfresh, rfl⟩ := exec_perform.mp huuid
  rcases passes_bind.mp happly with hget | ⟨a, v, hget, hp⟩
  · exact Or.inl (passes_getWork hget)
  obtain ⟨rfl, hfound⟩ := exec_getWork hget
  rcases a with e | found
  · exact Or.inl hp
  obtain ⟨sel, hsel, hlisted⟩ := hfound found rfl
  have hwrite {w r} (he : Exec (faulty env) (write (newWork args groups uuid) found) v r w) :
      w = v ∨ ∃ groups, getWorkloadGroups env root args.workflowType = .ok groups ∧
        Applies env args groups v w := by
    rcases exec_write hfresh hsel hlisted he with ⟨h, -⟩ | happlies
    · exact Or.inl h
    · exact Or.inr ⟨groups, hgroups, happlies⟩
  cases found with
  | none =>
    rcases passes_bind.mp hp with hcreate | ⟨b, w, hcreate, hp⟩
    · rcases passes_perform.mp hcreate with h | ⟨r, hr⟩
      · exact Or.inl h
      · exact hwrite (exec_perform.mpr hr)
    · cases b <;> (cases hp; exact hwrite hcreate)
  | some current =>
    rcases passes_bind.mp hp with hupdate | ⟨b, w, hupdate, hp⟩
    · rcases passes_perform.mp hupdate with h | ⟨r, hr⟩
      · exact Or.inl h
      · exact hwrite (exec_perform.mpr hr)
    · cases b <;> (cases hp; exact hwrite hupdate)

/-- A successful execution has written a Work with the groups of the output. -/
theorem exec_execute_ok (he : Exec (faulty env) (execute env args root) s (.ok ()) t) :
    ∃ groups, getWorkloadGroups env root args.workflowType = .ok groups ∧
      Applies env args groups s t := by
  unfold execute at he
  split at he
  · cases he.1
  next groups hgroups =>
  refine ⟨groups, hgroups, ?_⟩
  obtain ⟨uuid, u, huuid, happly⟩ := exec_bind.mp he
  obtain ⟨hfresh, rfl⟩ := exec_perform.mp huuid
  obtain ⟨a, v, hget, he₁⟩ := exec_bind.mp happly
  obtain ⟨rfl, hfound⟩ := exec_getWork hget
  rcases a with e | found
  · cases he₁.1
  obtain ⟨sel, hsel, hlisted⟩ := hfound found rfl
  have hwrite {r : Except ApiError Work} {w : World} (hr : ∃ x, r = .ok x)
      (hw : Exec (faulty env) (write (newWork args groups uuid) found) v r w) :
      Applies env args groups v w := by
    obtain ⟨x, rfl⟩ := hr
    rcases exec_write hfresh hsel hlisted hw with ⟨-, hno⟩ | happlies
    · exact absurd rfl (hno x)
    · exact happlies
  cases found with
  | none =>
    obtain ⟨b, w, hcreate, he₂⟩ := exec_bind.mp he₁
    cases b with
    | error e => cases he₂.1
    | ok stored =>
      obtain ⟨-, rfl⟩ := he₂
      exact hwrite ⟨stored, rfl⟩ hcreate
  | some current =>
    obtain ⟨b, w, hupdate, he₂⟩ := exec_bind.mp he₁
    cases b with
    | error e => cases he₂.1
    | ok stored =>
      obtain ⟨-, rfl⟩ := he₂
      exact hwrite ⟨stored, rfl⟩ hupdate

/-- The Work was created, or took the place of a stored one. -/
def Written (s t : World) (w : Work) : Prop :=
  ∃ c, t = s.withCluster c ∧
    ((∃ o, Adds (S := scheme) .work o s.cluster c ∧ w = s.cluster.stamp o) ∨
      ∃ current, Replaces (S := scheme) .work current (Object.settle w) s.cluster c)

theorem Applies.written {groups : List WorkloadGroup} (h : Applies env args groups s t) :
    ∃ w, w.spec = ⟨groups, args.promiseName, args.resourceName⟩ ∧ Written s t w := by
  cases h with
  | creates uuid sel c _ _ _ hadd ht =>
    refine ⟨_, ?_, c, ht, Or.inl ⟨_, hadd, rfl⟩⟩
    rfl
  | updates current sel c _ _ hrep ht => exact ⟨_, rfl, c, ht, Or.inr ⟨current, hrep⟩⟩

/-- A Work that was not there before has the workload groups of the output. -/
theorem groups_of_new {r : Except Failure Unit}
    (he : Exec (faulty env) (execute env args root) s r t) {w : Work}
    (hw : w ∈ t.cluster.objects .work) (hnew : w ∉ s.cluster.objects .work) :
    getWorkloadGroups env root args.workflowType = .ok w.spec.workloadGroups := by
  rcases passes_execute he.passes with rfl | ⟨groups, hgroups, happlies⟩
  · exact absurd hw hnew
  cases happlies with
  | creates uuid sel c _ _ _ hadd ht =>
    subst ht
    rcases hadd.mem_iff.mp hw with hw | rfl
    · exact absurd hw hnew
    · exact hgroups
  | updates current sel c _ _ hrep ht =>
    subst ht
    rcases (hrep.mem w).mp hw with ⟨hw, -⟩ | hw
    · exact absurd hw hnew
    · rw [Object.settle_eq_some hw]
      exact hgroups

end WorkCreator

end Kratix
