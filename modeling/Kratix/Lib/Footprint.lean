import Kratix.Lib.Writes

/-!
# What calls make of the objects of a kind

A call permits `A` for a kind when the object of that kind that it writes, if
any, satisfies `A`. After such calls, served or not, each object of the kind is
one that was there before, perhaps with another status or marked for deletion,
or it carries what was written in an object with `A`.
-/

namespace Apiserver

variable {S : Scheme} {k : S.Kind}

/-- Only the status is another one, or the object is now marked for deletion. -/
structure SameContent {σ τ : Type} (y x : Object σ τ) : Prop where
  key : x.key = y.key
  created : x.created = y.created
  labels : x.metadata.labels = y.metadata.labels
  annotations : x.metadata.annotations = y.metadata.annotations
  finalizers : x.metadata.finalizers = y.metadata.finalizers
  owner : x.metadata.owner = y.metadata.owner
  ownerName : x.metadata.ownerName = y.metadata.ownerName
  spec : x.spec = y.spec
  deleting : y.metadata.deleting = true → x.metadata.deleting = true

namespace SameContent

variable {σ τ : Type}

theorem refl (x : Object σ τ) : SameContent x x :=
  ⟨rfl, rfl, rfl, rfl, rfl, rfl, rfl, rfl, fun h => h⟩

theorem trans {x y z : Object σ τ} (h₁ : SameContent x y) (h₂ : SameContent y z) :
    SameContent x z where
  key := h₂.key.trans h₁.key
  created := h₂.created.trans h₁.created
  labels := h₂.labels.trans h₁.labels
  annotations := h₂.annotations.trans h₁.annotations
  finalizers := h₂.finalizers.trans h₁.finalizers
  owner := h₂.owner.trans h₁.owner
  ownerName := h₂.ownerName.trans h₁.ownerName
  spec := h₂.spec.trans h₁.spec
  deleting := fun h => h₂.deleting (h₁.deleting h)

theorem withStatus (x : Object σ τ) (status : τ) : SameContent x { x with status := status } :=
  ⟨rfl, rfl, rfl, rfl, rfl, rfl, rfl, rfl, fun h => h⟩

theorem markDeleting (x : Object σ τ) : SameContent x x.markDeleting :=
  ⟨rfl, rfl, rfl, rfl, rfl, rfl, rfl, rfl, fun _ => rfl⟩

end SameContent

/-- The object carries what was written in `o`. -/
structure WrittenAs {σ τ : Type} (o x : Object σ τ) : Prop where
  key : x.key = o.key
  labels : x.metadata.labels = o.metadata.labels
  annotations : x.metadata.annotations = o.metadata.annotations
  finalizers : x.metadata.finalizers = o.metadata.finalizers
  owner : x.metadata.owner = o.metadata.owner
  ownerName : x.metadata.ownerName = o.metadata.ownerName
  spec : x.spec = o.spec

instance {σ τ : Type} [DecidableEq σ] (o x : Object σ τ) : Decidable (WrittenAs o x) :=
  decidable_of_iff (x.key = o.key ∧ x.metadata.labels = o.metadata.labels ∧
      x.metadata.annotations = o.metadata.annotations ∧
      x.metadata.finalizers = o.metadata.finalizers ∧ x.metadata.owner = o.metadata.owner ∧
      x.metadata.ownerName = o.metadata.ownerName ∧ x.spec = o.spec)
    ⟨fun ⟨h₁, h₂, h₃, h₄, h₅, h₆, h₇⟩ => ⟨h₁, h₂, h₃, h₄, h₅, h₆, h₇⟩,
      fun ⟨h₁, h₂, h₃, h₄, h₅, h₆, h₇⟩ => ⟨h₁, h₂, h₃, h₄, h₅, h₆, h₇⟩⟩

theorem WrittenAs.sameContent {σ τ : Type} {o x y : Object σ τ} (h : WrittenAs o x)
    (hs : SameContent x y) : WrittenAs o y where
  key := hs.key.trans h.key
  labels := hs.labels.trans h.labels
  annotations := hs.annotations.trans h.annotations
  finalizers := hs.finalizers.trans h.finalizers
  owner := hs.owner.trans h.owner
  ownerName := hs.ownerName.trans h.ownerName
  spec := hs.spec.trans h.spec

/-- The object is a later version of `y`. -/
structure Succeeds {σ τ : Type} (y x : Object σ τ) : Prop where
  key : x.key = y.key
  created : x.created = y.created
  deleting : y.metadata.deleting = true → x.metadata.deleting = true

theorem SameContent.succeeds {σ τ : Type} {y x : Object σ τ} (h : SameContent y x) :
    Succeeds y x := ⟨h.key, h.created, h.deleting⟩

theorem Succeeds.trans {σ τ : Type} {x y z : Object σ τ} (h₁ : Succeeds x y)
    (h₂ : Succeeds y z) : Succeeds x z :=
  ⟨h₂.key.trans h₁.key, h₂.created.trans h₁.created, fun h => h₂.deleting (h₁.deleting h)⟩

/-- An object of a later cluster: it was in `c`, or what it carries satisfies
`A`, and then it is a later version of one in `c` or new. -/
def Stems (A : S.Obj k → Prop) (c : Cluster S) (x : S.Obj k) : Prop :=
  (∃ y ∈ c.objects k, SameContent y x) ∨
    ∃ o, A o ∧ o.metadata.labels.Valid ∧ WrittenAs o x ∧
      ((∃ y ∈ c.objects k, Succeeds y x) ∨ c.clock ≤ x.created)

theorem stems_of_mem {A : S.Obj k → Prop} {c : Cluster S} {x : S.Obj k}
    (h : x ∈ c.objects k) : Stems A c x := Or.inl ⟨x, h, SameContent.refl x⟩

/-- Every object of the kind stems from the earlier cluster. -/
structure Develops (k : S.Kind) (A : S.Obj k → Prop) (c c' : Cluster S) : Prop where
  clock : c.clock ≤ c'.clock
  stems : ∀ x ∈ c'.objects k, Stems A c x

namespace Develops

variable {A : S.Obj k → Prop} {c c' c'' : Cluster S}

theorem refl (c : Cluster S) : Develops k A c c := ⟨le_rfl, fun _ => stems_of_mem⟩

theorem trans (h₁ : Develops k A c c') (h₂ : Develops k A c' c'') : Develops k A c c'' where
  clock := h₁.clock.trans h₂.clock
  stems := by
    intro x hx
    rcases h₂.stems x hx with ⟨y, hy, hsame⟩ | ⟨o, ho, hv, hwritten, horigin⟩
    · rcases h₁.stems y hy with ⟨z, hz, hzy⟩ | ⟨o, ho, hv, hwritten, horigin⟩
      · exact Or.inl ⟨z, hz, hzy.trans hsame⟩
      · refine Or.inr ⟨o, ho, hv, hwritten.sameContent hsame, ?_⟩
        rcases horigin with ⟨z, hz, hzy⟩ | hclock
        · exact Or.inl ⟨z, hz, hzy.trans hsame.succeeds⟩
        · exact Or.inr (hsame.created ▸ hclock)
    · refine Or.inr ⟨o, ho, hv, hwritten, ?_⟩
      rcases horigin with ⟨y, hy, hyx⟩ | hclock
      · rcases h₁.stems y hy with ⟨z, hz, hzy⟩ | ⟨-, -, -, -, ⟨z, hz, hzy⟩ | hclock⟩
        · exact Or.inl ⟨z, hz, hzy.succeeds.trans hyx⟩
        · exact Or.inl ⟨z, hz, hzy.trans hyx⟩
        · exact Or.inr (hyx.created ▸ hclock)
      · exact Or.inr (h₁.clock.trans hclock)

theorem of_adds {o : S.Obj k} (hA : A o) (h : Adds k o c c') : Develops k A c c' where
  clock := by rw [h.clock]; exact Nat.le_succ _
  stems := by
    intro x hx
    rw [h.objects, List.mem_append, List.mem_singleton] at hx
    rcases hx with hx | rfl
    · exact stems_of_mem hx
    · exact Or.inr ⟨o, hA, h.valid, ⟨rfl, rfl, rfl, rfl, rfl, rfl, rfl⟩, Or.inr le_rfl⟩

theorem of_replaces {stored : S.Obj k} {new : Option (S.Obj k)} (h : Replaces k stored new c c')
    (hnew : ∀ x, new = some x → Stems A c x) : Develops k A c c' where
  clock := h.clock.ge
  stems := by
    intro x hx
    rcases (h.mem x).mp hx with ⟨hx, -⟩ | hx
    · exact stems_of_mem hx
    · exact hnew x hx

end Develops

/-! ### Calls -/

/-- What the call writes to objects of the kind satisfies `A`. -/
def ApiCall.Permits (k : S.Kind) (A : S.Obj k → Prop) : ApiCall S → Prop
  | create k' o | update k' o => ∀ h : k' = k, A (h ▸ o)
  | patch k' _ _ _ => k' ≠ k
  | list _ _ _ | get _ _ _ | updateStatus _ _ | delete _ _ _ => True

theorem develops_serve {A : S.Obj k → Prop} {call : ApiCall S} (hp : call.Permits k A)
    (c : Cluster S) : Develops k A c (serve call c).2 := by
  by_cases hw : call.Writes k
  · cases call with
    | list k' ns sel => exact hw.elim
    | get k' ns name => exact hw.elim
    | create k' o =>
      cases hw
      rcases serve_create_cases o c with ⟨e, h⟩ | ⟨-, h⟩
      · rw [h]
        exact Develops.refl c
      · exact Develops.of_adds (hp rfl) h
    | update k' o =>
      cases hw
      cases hfind : c.find k o.key with
      | none =>
        rw [(serve_of_missing hfind).1 o rfl]
        exact Develops.refl c
      | some stored =>
        rcases serve_update hfind with h | ⟨-, h, hv, -⟩
        · rw [h]
          exact Develops.refl c
        · refine Develops.of_replaces h fun x hx => ?_
          rw [Object.settle_eq_some hx]
          exact Or.inr ⟨o, hp rfl, hv, ⟨(c.find_eq_some.mp hfind).2, rfl, rfl, rfl, rfl, rfl, rfl⟩,
            Or.inl ⟨stored, h.stored_mem, rfl, rfl, fun h => h⟩⟩
    | updateStatus k' o =>
      cases hw
      cases hfind : c.find k o.key with
      | none =>
        rw [(serve_of_missing hfind).2.1 o rfl]
        exact Develops.refl c
      | some stored =>
        obtain ⟨-, h⟩ := serve_updateStatus hfind
        refine Develops.of_replaces h fun x hx => ?_
        rw [← Option.some.inj hx]
        exact Or.inl ⟨stored, h.stored_mem, SameContent.withStatus stored _⟩
    | patch k' ns name f => exact absurd hw hp
    | delete k' ns name =>
      cases hw
      cases hfind : c.find k (ns, name) with
      | none =>
        rw [(serve_of_missing hfind).2.2]
        exact Develops.refl c
      | some stored =>
        obtain ⟨-, h⟩ := serve_delete_stored hfind
        refine Develops.of_replaces h fun x hx => ?_
        rw [Object.settle_eq_some hx]
        exact Or.inl ⟨stored, h.stored_mem, SameContent.markDeleting stored⟩
  · exact ⟨serve_clock call c, fun x hx => stems_of_mem (serve_of_not_writes hw c ▸ hx)⟩

/-! ### Finalizers keep objects -/

theorem Object.settle_of_finalizer {σ τ : Type} {o : Object σ τ} {f : String}
    (h : f ∈ o.metadata.finalizers) : o.settle = some o := by
  unfold Object.settle
  rw [if_neg]
  simp only [Bool.and_eq_true, List.isEmpty_iff, not_and]
  intro _ hnil
  rw [hnil] at h
  cases h

/-! ### Objects that nobody deletes -/

def ApiCall.Deletes (k : S.Kind) : ApiCall S → Prop
  | delete k' _ _ => k' = k
  | _ => False

/-- Objects that are not marked for deletion stay, in a later version. -/
def Outlives (k : S.Kind) (c c' : Cluster S) : Prop :=
  ∀ y ∈ c.objects k, y.metadata.deleting = false →
    ∃ x ∈ c'.objects k, Succeeds y x ∧ x.metadata.deleting = false

theorem Outlives.refl (c : Cluster S) : Outlives k c c :=
  fun y hy hlive => ⟨y, hy, ⟨rfl, rfl, fun h => h⟩, hlive⟩

theorem Outlives.trans {c c' c'' : Cluster S} (h₁ : Outlives k c c') (h₂ : Outlives k c' c'') :
    Outlives k c c'' := by
  intro y hy hlive
  obtain ⟨x, hx, hyx, hlive⟩ := h₁ y hy hlive
  obtain ⟨z, hz, hxz, hlive⟩ := h₂ x hx hlive
  exact ⟨z, hz, hyx.trans hxz, hlive⟩

theorem Outlives.of_replaces {stored x : S.Obj k} {c c' : Cluster S}
    (h : Replaces k stored x.settle c c') (hx : Succeeds stored x)
    (hdeleting : x.metadata.deleting = stored.metadata.deleting) : Outlives k c c' := by
  intro y hy hlive
  by_cases hk : y.key = stored.key
  · obtain rfl := c.eq_of_key hy h.stored_mem hk
    have hlive : x.metadata.deleting = false := hdeleting.trans hlive
    exact ⟨x, (h.mem x).mpr (Or.inr (Object.settle_of_live hlive)), hx, hlive⟩
  · exact ⟨y, (h.mem y).mpr (Or.inl ⟨hy, hk⟩), ⟨rfl, rfl, fun h => h⟩, hlive⟩

theorem outlives_serve {call : ApiCall S} (hp : call.Permits k fun _ => True)
    (hd : ¬ call.Deletes k) (c : Cluster S) : Outlives k c (serve call c).2 := by
  by_cases hw : call.Writes k
  · cases call with
    | list k' ns sel => exact hw.elim
    | get k' ns name => exact hw.elim
    | create k' o =>
      cases hw
      rcases serve_create_cases o c with ⟨e, h⟩ | ⟨-, h⟩
      · rw [h]
        exact Outlives.refl c
      · intro y hy hlive
        exact ⟨y, h.mem_iff.mpr (Or.inl hy), ⟨rfl, rfl, fun h => h⟩, hlive⟩
    | update k' o =>
      cases hw
      cases hfind : c.find k o.key with
      | none =>
        rw [(serve_of_missing hfind).1 o rfl]
        exact Outlives.refl c
      | some stored =>
        rcases serve_update hfind with h | ⟨-, h, -, -⟩
        · rw [h]
          exact Outlives.refl c
        · exact Outlives.of_replaces h ⟨rfl, rfl, fun h => h⟩ rfl
    | updateStatus k' o =>
      cases hw
      cases hfind : c.find k o.key with
      | none =>
        rw [(serve_of_missing hfind).2.1 o rfl]
        exact Outlives.refl c
      | some stored =>
        obtain ⟨-, h⟩ := serve_updateStatus hfind
        intro y hy hlive
        by_cases hk : y.key = stored.key
        · obtain rfl := c.eq_of_key hy h.stored_mem hk
          exact ⟨_, (h.mem _).mpr (Or.inr rfl), (SameContent.withStatus y _).succeeds, hlive⟩
        · exact ⟨y, (h.mem y).mpr (Or.inl ⟨hy, hk⟩), ⟨rfl, rfl, fun h => h⟩, hlive⟩
    | patch k' ns name f => exact absurd hw hp
    | delete k' ns name => exact absurd hw hd
  · intro y hy hlive
    exact ⟨y, by rw [serve_of_not_writes hw]; exact hy, ⟨rfl, rfl, fun h => h⟩, hlive⟩

/-! ### Statuses -/

/-- Each status that the call gives to an object of the kind satisfies `P`. -/
def ApiCall.Reports (k : S.Kind) (P : S.Status k → Prop) : ApiCall S → Prop
  | create k' o | updateStatus k' o => ∀ h : k' = k, P (h ▸ o.status)
  | list _ _ _ | get _ _ _ | update _ _ | patch _ _ _ _ | delete _ _ _ => True

theorem statuses_serve {P : S.Status k → Prop} {call : ApiCall S} (hp : call.Reports k P)
    {c : Cluster S} (hc : ∀ x ∈ c.objects k, P x.status) :
    ∀ x ∈ (serve call c).2.objects k, P x.status := by
  have hreplaces {stored : S.Obj k} {new : Option (S.Obj k)} {c' : Cluster S}
      (h : Replaces k stored new c c') (hnew : ∀ x, new = some x → P x.status) :
      ∀ x ∈ c'.objects k, P x.status := by
    intro x hx
    rcases (h.mem x).mp hx with ⟨hx, -⟩ | hx
    · exact hc x hx
    · exact hnew x hx
  by_cases hw : call.Writes k
  · cases call with
    | list k' ns sel => exact hw.elim
    | get k' ns name => exact hw.elim
    | create k' o =>
      cases hw
      rcases serve_create_cases o c with ⟨e, h⟩ | ⟨-, h⟩
      · rwa [h]
      · intro x hx
        rcases h.mem_iff.mp hx with hx | rfl
        · exact hc x hx
        · exact hp rfl
    | update k' o =>
      cases hw
      cases hfind : c.find k o.key with
      | none => rwa [(serve_of_missing hfind).1 o rfl]
      | some stored =>
        rcases serve_update hfind with h | ⟨-, h, -, -⟩
        · rwa [h]
        · refine hreplaces h fun x hx => ?_
          rw [Object.settle_eq_some hx]
          exact hc stored h.stored_mem
    | updateStatus k' o =>
      cases hw
      cases hfind : c.find k o.key with
      | none => rwa [(serve_of_missing hfind).2.1 o rfl]
      | some stored =>
        refine hreplaces (serve_updateStatus hfind).2 fun x hx => ?_
        rw [← Option.some.inj hx]
        exact hp rfl
    | patch k' ns name f =>
      cases hw
      cases hfind : c.find k (ns, name) with
      | none => simpa only [serve, hfind] using hc
      | some stored =>
        intro x hx
        simp only [serve, hfind, Cluster.mem_rewrite] at hx
        obtain ⟨y, hy, hyx⟩ := hx
        unfold atKey withSpec at hyx
        split_ifs at hyx
        · rw [← Option.some.inj hyx]
          exact hc y hy
        · rw [← Option.some.inj hyx]
          exact hc y hy
    | delete k' ns name =>
      cases hw
      cases hfind : c.find k (ns, name) with
      | none => rwa [(serve_of_missing hfind).2.2]
      | some stored =>
        have h := (serve_delete_stored hfind).2
        refine hreplaces h fun x hx => ?_
        rw [Object.settle_eq_some hx]
        exact hc stored h.stored_mem
  · rwa [serve_of_not_writes hw]

end Apiserver
