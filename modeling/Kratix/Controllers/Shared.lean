import Kratix.Footprint
import Kratix.ResourceUtil

/-!
# What the controllers share
-/

namespace Kratix

open Apiserver Effect

inductive Requeue
  | none
  | fast
  | default
  | slow
  /-- After the interval between two regular reconciles. -/
  | interval
  deriving DecidableEq, Repr

structure ReconcileResult where
  requeue : Requeue := .none
  err : Option Failure := none
  deriving DecidableEq

/-- The answer to a write that ends a reconcile. -/
def ReconcileResult.ofWrite {α : Type} (requeue : Requeue) : Except ApiError α → ReconcileResult
  | .ok _ => ⟨requeue, .none⟩
  | .error e => ⟨requeue, some (.api e)⟩

/-- Delete the listed objects; one that is gone already does not matter. -/
def deleteListed (k : Kind) : List (scheme.Obj k) → Prog (Except Failure Unit)
  | [] => return .ok ()
  | resource :: rest => do
    match ← deleteObject k resource.metadata.ns resource.metadata.name with
    | .ok _ => deleteListed k rest
    | .error .notFound => deleteListed k rest
    | .error e => return .error (.api e)

/-- Delete all objects of the kind with these labels, in every namespace. The
answer tells whether there were any. -/
def deleteAllResourcesWithKindMatchingLabel (k : Kind) (resourceLabels : Labels) :
    Prog (Except Failure Bool) := do
  match ← listObjects k "" (Selector.fromSet resourceLabels) with
  | .error e => return .error (.api e)
  | .ok resourceList =>
    match ← deleteListed k resourceList with
    | .error e => return .error e
    | .ok () => return .ok !resourceList.isEmpty

def withAddedFinalizers {σ τ : Type} (o : Object σ τ) (finalizers : List String) : Object σ τ :=
  finalizers.foldl addFinalizer o

def addFinalizers (k : Kind) (resource : scheme.Obj k) (finalizers : List String) :
    Prog ReconcileResult := do
  return .ofWrite .none (← updateObject k (withAddedFinalizers resource finalizers))

/-! ### Policies -/

section

variable {p : Policy} {k : Kind}

theorem obeys_deleteListed (h : p.delete k) (l : List (scheme.Obj k)) :
    Obeys p (deleteListed k l) := by
  induction l with
  | nil => exact obeys_pure _
  | cons o l ih =>
    refine obeys_bind (obeys_deleteObject h _ _) ?_
    rintro ((_ | _ | _ | _ | _) | x)
    case error.notFound => exact ih
    case ok => exact ih
    all_goals exact obeys_pure _

theorem obeys_deleteAllResourcesWithKindMatchingLabel (h : p.delete k) (l : Labels) :
    Obeys p (deleteAllResourcesWithKindMatchingLabel k l) := by
  refine obeys_bind (obeys_listObjects _ _) ?_
  rintro (e | l)
  · exact obeys_pure _
  · refine obeys_bind (obeys_deleteListed h l) ?_
    rintro (e | _) <;> exact obeys_pure _

end

end Kratix
