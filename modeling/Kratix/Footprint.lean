import Kratix.Calls
import Kratix.Lib.Footprint

/-!
# What a program may write

A policy lists what a program may do to the objects of each kind and to the
state stores. That a program obeys a policy is read off its text, call by call;
what this means for the cluster after an execution follows once for all
programs.
-/

namespace Kratix

open Apiserver Effect GoPath

structure Policy where
  /-- Objects that may be created or written over stored ones. -/
  write : AnyObject → Prop := fun _ => False
  status : Kind → Prop := fun _ => False
  patch : Kind → Prop := fun _ => False
  delete : Kind → Prop := fun _ => False
  files : Prop := False

def Call.Obeys (p : Policy) : Call → Prop
  | .api (.create k o) | .api (.update k o) => p.write ⟨k, o⟩
  | .api (.updateStatus k _) => p.status k
  | .api (.patch k _ _ _) => p.patch k
  | .api (.delete k _ _) => p.delete k
  | .updateFiles _ _ _ _ _ => p.files
  | _ => True

variable {env : Externals} {p p' : Policy} {k : Kind} {α β : Type}

def Obeys (p : Policy) (prog : Prog α) : Prop := prog.Calls (Call.Obeys p)

/-! ### Single calls -/

section

variable {prog : Prog α}

theorem obeys_pure (a : α) : Obeys p (pure a) := calls_pure a

theorem obeys_bind {f : α → Prog β} (hp : Obeys p prog) (hf : ∀ a, Obeys p (f a)) :
    Obeys p (prog >>= f) := calls_bind hp hf

theorem obeys_listObjects (ns : String) (sel : Selector) : Obeys p (listObjects k ns sel) :=
  calls_perform.mpr trivial

theorem obeys_getObject (ns name : String) : Obeys p (getObject k ns name) :=
  calls_perform.mpr trivial

theorem obeys_updateObject {o : scheme.Obj k} (h : p.write ⟨k, o⟩) :
    Obeys p (updateObject k o) := calls_perform.mpr h

theorem obeys_updateStatus (h : p.status k) (o : scheme.Obj k) : Obeys p (updateStatus k o) :=
  calls_perform.mpr h

theorem obeys_deleteObject (h : p.delete k) (ns name : String) :
    Obeys p (deleteObject k ns name) := calls_perform.mpr h

theorem obeys_timeNow : Obeys p timeNow := calls_perform.mpr trivial

theorem obeys_randIntn (n : ℕ) : Obeys p (randIntn n) := calls_perform.mpr trivial

end

/-! ### What a policy means for an execution -/

section

variable {prog : Prog α} {s t : World} {a : α}

theorem Call.Obeys.permits {call : ApiCall scheme} (h : Call.Obeys p (.api call))
    (hpatch : ¬ p.patch k) {A : scheme.Obj k → Prop} (hA : ∀ o, p.write ⟨k, o⟩ → A o) :
    call.Permits k A := by
  cases call with
  | create k' o =>
    rintro rfl
    exact hA o h
  | update k' o =>
    rintro rfl
    exact hA o h
  | patch k' ns name f =>
    rintro rfl
    exact hpatch h
  | list k' ns sel => trivial
  | get k' ns name => trivial
  | updateStatus k' o => trivial
  | delete k' ns name => trivial

/-- Each object of the kind was there before or carries what the policy lets a
program write. -/
theorem exec_develops (hp : Obeys p prog) (hpatch : ¬ p.patch k) {A : scheme.Obj k → Prop}
    (hA : ∀ o, p.write ⟨k, o⟩ → A o) (he : Exec (faulty env) prog s a t) :
    Develops k A s.cluster t.cluster := by
  refine Exec.frame (R := fun s t : World => Develops k A s.cluster t.cluster) ?_ ?_ ?_ hp he
  · exact fun s => Develops.refl _
  · exact fun s t u => Develops.trans
  · intro c s r t hc h
    rcases faulty_cluster h with hcl | ⟨call, rfl, hcl⟩
    · rw [hcl]
      exact Develops.refl _
    · rw [hcl]
      exact develops_serve (hc.permits hpatch hA) _

/-- Objects of a kind that the program may not delete are still there. -/
theorem exec_outlives (hp : Obeys p prog) (hpatch : ¬ p.patch k) (hdelete : ¬ p.delete k)
    (he : Exec (faulty env) prog s a t) : Outlives k s.cluster t.cluster := by
  refine Exec.frame (R := fun s t : World => Outlives k s.cluster t.cluster) ?_ ?_ ?_ hp he
  · exact fun s => Outlives.refl _
  · exact fun s t u => Outlives.trans
  · intro c s r t hc h
    rcases faulty_cluster h with hcl | ⟨call, rfl, hcl⟩
    · rw [hcl]
      exact Outlives.refl _
    · rw [hcl]
      refine outlives_serve (hc.permits hpatch fun _ _ => trivial) (fun hd => ?_) _
      cases call with
      | delete k' ns name =>
        cases hd
        exact hdelete hc
      | _ => exact hd

theorem spares_of_obeys (hp : Obeys p prog) (hwrite : ∀ o, ¬ p.write ⟨k, o⟩)
    (hstatus : ¬ p.status k) (hpatch : ¬ p.patch k) (hdelete : ¬ p.delete k) : Spares k prog := by
  refine Program.Calls.mono ?_ hp
  rintro (call | _ | _ | _ | _ | _ | _ | _ | _ | _ | _) h hw
  · cases call with
    | create k' o =>
      cases hw
      exact hwrite o h
    | update k' o =>
      cases hw
      exact hwrite o h
    | updateStatus k' o =>
      cases hw
      exact hstatus h
    | patch k' ns name f =>
      cases hw
      exact hpatch h
    | delete k' ns name =>
      cases hw
      exact hdelete h
    | list k' ns sel => exact hw
    | get k' ns name => exact hw
  all_goals exact hw

/-- Anything except writing objects of one kind. -/
@[simps]
def sparing (k : Kind) : Policy where
  write := fun o => o.1 ≠ k
  status := fun k' => k' ≠ k
  patch := fun k' => k' ≠ k
  delete := fun k' => k' ≠ k
  files := True

theorem spares_of_sparing (hp : Obeys (sparing k) prog) : Spares k prog :=
  spares_of_obeys hp (fun _ h => h rfl) (fun h => h rfl) (fun h => h rfl) fun h => h rfl

theorem exec_spared (hp : Obeys (sparing k) prog) (he : Exec (faulty env) prog s a t) :
    t.cluster.objects k = s.cluster.objects k :=
  exec_objects (spares_of_sparing hp) he

end

end Kratix
