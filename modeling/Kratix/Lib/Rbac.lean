import Mathlib.Data.Set.Function
import Mathlib.Tactic

/-!
# Role based access control

Rules are held by roles of a namespace or of the cluster and given to subjects
by bindings of a namespace or of the cluster. `none` is the cluster here and
`some ns` a namespace. A grant is a role together with the binding for it. A list
of grants has the access it is meant to have if no object of one grant takes
the place of an object of another.
-/

namespace Rbac

/-- Where an object is and its name. -/
abbrev Key := Option String × String

structure RoleRef where
  clusterRole : Bool
  name : String
  deriving DecidableEq

structure Binding (σ : Type) where
  roleRef : RoleRef
  subjects : List σ
  deriving DecidableEq

/-- The stored roles and bindings. -/
structure Objects (ρ σ : Type) where
  role : Key → Option (List ρ)
  binding : Key → Option (Binding σ)

/-- The role that a binding refers to. A binding of the cluster cannot refer to the
role of a namespace. -/
def RoleRef.resolve (ref : RoleRef) (scope : Option String) : Option Key :=
  if ref.clusterRole then some (none, ref.name) else scope.map fun ns => (some ns, ref.name)

variable {ρ σ : Type}

/-- The subject may do in the namespace what the rule permits. -/
def Objects.Allowed (o : Objects ρ σ) (who : σ) (ns : String) (rule : ρ) : Prop :=
  ∃ scope name b key rules, o.binding (scope, name) = some b ∧ (scope = none ∨ scope = some ns) ∧
    who ∈ b.subjects ∧ b.roleRef.resolve scope = some key ∧ o.role key = some rules ∧ rule ∈ rules

/-! ### Grants -/

/-- How rules are given. -/
inductive Place
  /-- A role of the namespace, with a binding there. -/
  | role (ns : String)
  /-- A role of the cluster, with a binding in the namespace. -/
  | binding (ns : String)
  /-- A role of the cluster, with a binding of the cluster. -/
  | cluster
  deriving DecidableEq

def Place.roleScope : Place → Option String
  | role ns => some ns
  | binding _ | cluster => none

def Place.scope : Place → Option String
  | role ns | binding ns => some ns
  | cluster => none

def Place.isClusterRole : Place → Bool
  | role _ => false
  | binding _ | cluster => true

def Place.Covers (p : Place) (ns : String) : Prop := p.scope = none ∨ p.scope = some ns

structure Grant (ρ : Type) where
  place : Place
  roleName : String
  bindingName : String
  rules : List ρ

namespace Grant

def roleKey (g : Grant ρ) : Key := (g.place.roleScope, g.roleName)

def bindingKey (g : Grant ρ) : Key := (g.place.scope, g.bindingName)

def toBinding (g : Grant ρ) (who : σ) : Binding σ := ⟨⟨g.place.isClusterRole, g.roleName⟩, [who]⟩

theorem resolve_toBinding (g : Grant ρ) (who : σ) :
    (g.toBinding who).roleRef.resolve g.place.scope = some g.roleKey := by
  obtain ⟨place, name, _, _⟩ := g
  cases place <;> rfl

end Grant

/-- The objects of the grants and no others, where objects of the same key
overwrite each other. -/
structure Holds (o : Objects ρ σ) (grants : List (Grant ρ)) (who : σ) : Prop where
  role_some : ∀ key rules, o.role key = some rules → ∃ g ∈ grants, g.roleKey = key ∧ g.rules = rules
  role_isSome : ∀ g ∈ grants, (o.role g.roleKey).isSome
  binding_some : ∀ key b, o.binding key = some b →
    ∃ g ∈ grants, g.bindingKey = key ∧ g.toBinding who = b
  binding_isSome : ∀ g ∈ grants, (o.binding g.bindingKey).isSome

/-- No two grants share an object. -/
structure Apart (grants : List (Grant ρ)) : Prop where
  roles : Set.InjOn Grant.roleKey {g | g ∈ grants}
  bindings : Set.InjOn Grant.bindingKey {g | g ∈ grants}

variable {o : Objects ρ σ} {grants : List (Grant ρ)} {who : σ}

/-- Each access comes from the binding of one grant and the rules of another, for
the same role. -/
theorem Holds.allowed_iff (h : Holds o grants who) {ns : String} {rule : ρ} :
    o.Allowed who ns rule ↔
      ∃ g ∈ grants, ∃ g' ∈ grants, o.binding g.bindingKey = some (g.toBinding who) ∧
        o.role g.roleKey = some g'.rules ∧ g'.roleKey = g.roleKey ∧ g.place.Covers ns ∧
        rule ∈ g'.rules := by
  constructor
  · rintro ⟨scope, name, b, key, rules, hb, hscope, hwho, hkey, hrole, hrule⟩
    obtain ⟨g, hg, hgkey, rfl⟩ := h.binding_some _ _ hb
    obtain ⟨rfl, rfl⟩ := Prod.mk.inj hgkey
    rw [g.resolve_toBinding, Option.some.injEq] at hkey
    subst hkey
    obtain ⟨g', hg', hkey', rfl⟩ := h.role_some _ _ hrole
    exact ⟨g, hg, g', hg', hb, hrole, hkey', hscope, hrule⟩
  · rintro ⟨g, -, g', -, hb, hrole, -, hscope, hrule⟩
    exact ⟨g.place.scope, g.bindingName, _, g.roleKey, g'.rules, hb, hscope,
      List.mem_singleton.mpr rfl, g.resolve_toBinding who, hrole, hrule⟩

theorem Holds.role_eq (h : Holds o grants who) (ha : Apart grants) {g : Grant ρ} (hg : g ∈ grants) :
    o.role g.roleKey = some g.rules := by
  obtain ⟨rules, hrules⟩ := Option.isSome_iff_exists.mp (h.role_isSome g hg)
  obtain ⟨g', hg', hkey, rfl⟩ := h.role_some _ _ hrules
  rw [hrules, ha.roles hg' hg hkey]

theorem Holds.binding_eq (h : Holds o grants who) (ha : Apart grants) {g : Grant ρ}
    (hg : g ∈ grants) : o.binding g.bindingKey = some (g.toBinding who) := by
  obtain ⟨b, hb⟩ := Option.isSome_iff_exists.mp (h.binding_isSome g hg)
  obtain ⟨g', hg', hkey, rfl⟩ := h.binding_some _ _ hb
  rw [hb, ha.bindings hg' hg hkey]

/-- The bindings are those of the grants, and the roles they refer to hold the rules
of the grants. There may be other roles. -/
structure Gives (o : Objects ρ σ) (grants : List (Grant ρ)) (who : σ) : Prop where
  role : ∀ g ∈ grants, o.role g.roleKey = some g.rules
  binding : ∀ key b, o.binding key = some b ↔
    ∃ g ∈ grants, g.bindingKey = key ∧ g.toBinding who = b

/-- Such objects give the subject the rules of the grants, where they hold, and
no one else anything. -/
theorem Gives.allowed_iff (h : Gives o grants who) {subject : σ} {ns : String} {rule : ρ} :
    o.Allowed subject ns rule ↔
      subject = who ∧ ∃ g ∈ grants, g.place.Covers ns ∧ rule ∈ g.rules := by
  constructor
  · rintro ⟨scope, name, b, key, rules, hb, hscope, hsubject, hkey, hrole, hrule⟩
    obtain ⟨g, hg, hgkey, rfl⟩ := (h.binding _ _).mp hb
    obtain ⟨rfl, rfl⟩ := Prod.mk.inj hgkey
    rw [g.resolve_toBinding, Option.some.injEq] at hkey
    subst hkey
    rw [h.role g hg, Option.some.injEq] at hrole
    subst hrole
    exact ⟨List.mem_singleton.mp hsubject, g, hg, hscope, hrule⟩
  · rintro ⟨rfl, g, hg, hcovers, hrule⟩
    exact ⟨g.place.scope, g.bindingName, _, g.roleKey, g.rules,
      (h.binding _ _).mpr ⟨g, hg, rfl, rfl⟩, hcovers, List.mem_singleton.mpr rfl,
      g.resolve_toBinding subject, h.role g hg, hrule⟩

theorem Holds.gives (h : Holds o grants who) (ha : Apart grants) : Gives o grants who where
  role := fun _ hg => h.role_eq ha hg
  binding := by
    intro key b
    refine ⟨h.binding_some key b, ?_⟩
    rintro ⟨g, hg, rfl, rfl⟩
    exact h.binding_eq ha hg

/-- Grants that are kept apart give their rules, where they hold, and no more. -/
theorem Holds.allowed_iff_of_apart (h : Holds o grants who) (ha : Apart grants) {ns : String}
    {rule : ρ} : o.Allowed who ns rule ↔ ∃ g ∈ grants, g.place.Covers ns ∧ rule ∈ g.rules := by
  rw [(h.gives ha).allowed_iff]
  exact and_iff_right rfl

/-- If no rule is in two grants and every grant gives some rule, the grants are kept apart. -/
theorem Holds.apart (h : Holds o grants who)
    (hdisjoint : ∀ g ∈ grants, ∀ g' ∈ grants, ∀ rule ∈ g.rules, rule ∈ g'.rules → g = g')
    (hgiven : ∀ g ∈ grants, ∃ rule ∈ g.rules, ∃ ns, o.Allowed who ns rule) : Apart grants := by
  -- the role of a grant is stored, and the binding that gives it is one for this role
  have hstored : ∀ g ∈ grants, o.role g.roleKey = some g.rules ∧ ∃ g' ∈ grants,
      o.binding g'.bindingKey = some (g'.toBinding who) ∧ g'.roleKey = g.roleKey := by
    intro g hg
    obtain ⟨rule, hrule, ns, hallowed⟩ := hgiven g hg
    obtain ⟨b, hb, g', hg', hbinding, hrole, hkey, -, hrule'⟩ := h.allowed_iff.mp hallowed
    obtain rfl := hdisjoint g hg g' hg' rule hrule hrule'
    exact ⟨hkey ▸ hrole, b, hb, hbinding, hkey.symm⟩
  have hroles : Set.InjOn Grant.roleKey {g | g ∈ grants} := by
    intro g hg g' hg' hkey
    obtain ⟨rule, hrule, -⟩ := hgiven g hg
    have hrules : g.rules = g'.rules := by
      have heq := (hstored g hg).1
      rw [hkey, (hstored g' hg').1] at heq
      exact (Option.some.inj heq).symm
    exact hdisjoint g hg g' hg' rule hrule (hrules ▸ hrule)
  refine ⟨hroles, fun g hg g' hg' hkey => hroles hg hg' ?_⟩
  have hbinding : ∀ g ∈ grants, o.binding g.bindingKey = some (g.toBinding who) := by
    intro g hg
    obtain ⟨-, b, hb, hbinding, hkey⟩ := hstored g hg
    rwa [hroles hb hg hkey] at hbinding
  have hsame : g.toBinding who = g'.toBinding who := by
    have heq := hbinding g hg
    rw [hkey, hbinding g' hg'] at heq
    exact (Option.some.inj heq).symm
  have hscope : g.place.scope = g'.place.scope := congrArg Prod.fst hkey
  have hresolve := g.resolve_toBinding who
  rw [hsame, hscope, g'.resolve_toBinding] at hresolve
  exact (Option.some.inj hresolve).symm

end Rbac
