import Kratix.Footprint

/-!
# Admission of Destinations

Anybody may call the API server; a Destination is written as the webhook admits it.
-/

namespace Kratix.DestinationWebhook

open Apiserver GoPath

def default (destination : Destination) : Destination :=
  if destination.spec.filepathMode = .aggregatedYAML ∧ destination.spec.filename = [] then
    { destination with spec := { destination.spec with filename := ["aggregated.yaml"] } }
  else destination

/-- For creates and for updates, given all Destinations. -/
def validateCreate (destinations : List Destination) (destination : Destination) :
    Except String Unit :=
  if destination.spec.path = [] then .error "path field is required"
  else if ∃ existing ∈ destinations,
      existing.spec.stateStoreRef = destination.spec.stateStoreRef ∧
      existing.metadata.name ≠ destination.metadata.name ∧
      existing.spec.path = destination.spec.path then
    .error ("destination path '" ++ "/".intercalate destination.spec.path ++
      "' already exists for state store '" ++ destination.spec.stateStoreRef.name ++ "'")
  else .ok ()

/-- A call that writes at most a Destination that is admitted. -/
inductive Step (c : Cluster scheme) : Cluster scheme → Prop
  | call (call : ApiCall scheme) (admitted : Option Destination)
      (hok : ∀ o ∈ admitted, validateCreate (c.objects .destination) (default o) = .ok ())
      (hcall : call.Permits Kind.destination fun x : Destination => x ∈ admitted.map default) :
      Step c (serve call c).2

/-- Paths are set and used once in each state store, and aggregated files have a name. -/
def Admissible (l : List Destination) : Prop :=
  ∀ x ∈ l, x.spec.path ≠ [] ∧ (x.spec.filepathMode = .aggregatedYAML → x.spec.filename ≠ []) ∧
    ∀ y ∈ l, x.spec.stateStoreRef = y.spec.stateStoreRef → x.spec.path = y.spec.path →
      x.metadata.name = y.metadata.name

theorem Admissible.of_from {l l' : List Destination} {admitted : Option Destination}
    (hl : Admissible l) (hok : ∀ o ∈ admitted, validateCreate l (default o) = .ok ())
    (hfrom : ∀ x ∈ l', ∃ y, (y ∈ l ∨ y ∈ admitted.map default) ∧ x.spec = y.spec ∧
      x.metadata.name = y.metadata.name) : Admissible l' := by
  unfold Admissible at hl ⊢
  cases admitted with
  | none => grind
  | some o =>
    have hvalid : (default o).spec.path ≠ [] ∧ ∀ x ∈ l,
        x.spec.stateStoreRef = (default o).spec.stateStoreRef →
        x.spec.path = (default o).spec.path → x.metadata.name = (default o).metadata.name := by
      have h := hok o rfl
      unfold validateCreate at h
      split_ifs at h
      grind
    have hname : (default o).spec.filepathMode = .aggregatedYAML →
        (default o).spec.filename ≠ [] := by
      grind [default]
    simp only [Option.map_some, Option.mem_some_iff] at hfrom
    grind

theorem Step.admissible {c c' : Cluster scheme} (h : Step c c')
    (hc : Admissible (c.objects .destination)) : Admissible (c'.objects .destination) := by
  obtain ⟨call, admitted, hok, hcall⟩ := h
  apply hc.of_from hok
  intro x hx
  rcases (develops_serve hcall c).stems x hx with ⟨y, hy, hsame⟩ | ⟨y, hy, -, hsame, -⟩
  · exact ⟨y, Or.inl hy, hsame.spec, congrArg Prod.snd hsame.key⟩
  · exact ⟨y, Or.inr hy, hsame.spec, congrArg Prod.snd hsame.key⟩

/-- In every run the stored Destinations are admissible. -/
theorem admitted_destinations_apart {c : Cluster scheme}
    (hrun : Relation.ReflTransGen Step (Cluster.empty scheme) c) :
    Admissible (c.objects .destination) := by
  induction hrun with
  | refl => simp [Admissible, Cluster.empty]
  | tail _ hstep ih => exact hstep.admissible ih

def worker : Destination :=
  ⟨{ name := "worker" }, { path := ["worker"], stateStoreRef := ⟨.git, "store"⟩ }, {}⟩

theorem admitted_destinations_apart_worker :
    Admissible ((serve (.create Kind.destination worker) (Cluster.empty scheme)).2.objects
      .destination) := by
  apply admitted_destinations_apart
  apply Relation.ReflTransGen.single
  apply Step.call _ (some worker)
  · simp [validateCreate, default, worker, Cluster.empty]
  · exact fun _ => rfl

end Kratix.DestinationWebhook
