import Mathlib.Logic.Relation
import Mathlib.Tactic

/-!
# Programs that talk to a shared state through calls

A program is a finite tree: it stops with a value, or makes one call and goes
on with the answer. What a call does to the shared state is not part of the
program. A `Handler` says which answers and which next states are possible, so
the same program can be executed with every call served, or with calls that
may fail, and `Exec` is the resulting big-step relation.
-/

namespace Effect

/-- The calls a program may make, and the type of the answer to each of them. -/
structure Signature where
  Call : Type
  Answer : Call → Type

inductive Program (S : Signature) (α : Type)
  | done (a : α)
  | call (c : S.Call) (next : S.Answer c → Program S α)

variable {S : Signature} {σ α β γ : Type}

namespace Program

def bind : Program S α → (α → Program S β) → Program S β
  | done a, f => f a
  | call c next, f => call c fun r => (next r).bind f

instance : Monad (Program S) where
  pure := done
  bind := bind

/-- A single call, answered to the program. -/
def perform (c : S.Call) : Program S (S.Answer c) := call c done

end Program

/-- The possible outcomes of a call: an answer and the state after it. -/
abbrev Handler (S : Signature) (σ : Type) := (c : S.Call) → σ → S.Answer c → σ → Prop

/-- `Exec h p s a t`: executed from `s`, the program `p` can return `a` and leave `t`. -/
def Exec (h : Handler S σ) : Program S α → σ → α → σ → Prop
  | .done a, s, b, t => b = a ∧ t = s
  | .call c next, s, b, t => ∃ r u, h c s r u ∧ Exec h (next r) u b t

variable {h : Handler S σ} {s t : σ}

@[simp] theorem exec_pure {a b : α} : Exec h (pure a : Program S α) s b t ↔ b = a ∧ t = s :=
  Iff.rfl

@[simp] theorem exec_perform {c : S.Call} {r : S.Answer c} :
    Exec h (Program.perform c) s r t ↔ h c s r t := by
  constructor
  · rintro ⟨r', u, hc, rfl, rfl⟩
    exact hc
  · exact fun hc => ⟨r, t, hc, rfl, rfl⟩

@[simp] theorem exec_bind {p : Program S α} {f : α → Program S β} {b : β} :
    Exec h (p >>= f) s b t ↔ ∃ a u, Exec h p s a u ∧ Exec h (f a) u b t := by
  change Exec h (p.bind f) s b t ↔ _
  induction p generalizing s with
  | done a =>
    constructor
    · exact fun hf => ⟨a, s, ⟨rfl, rfl⟩, hf⟩
    · rintro ⟨a', u, ⟨rfl, rfl⟩, hf⟩
      exact hf
  | call c next ih =>
    constructor
    · rintro ⟨r, u, hc, hr⟩
      obtain ⟨a, v, ha, hf⟩ := (ih r).mp hr
      exact ⟨a, v, ⟨r, u, hc, ha⟩, hf⟩
    · rintro ⟨a, v, ⟨r, u, hc, ha⟩, hf⟩
      exact ⟨r, u, hc, (ih r).mpr ⟨a, v, ha, hf⟩⟩

/-- A program that may fail goes on only after a step that did not. -/
theorem Exec.of_run_bind {ε : Type} {p : ExceptT ε (Program S) α}
    {f : α → ExceptT ε (Program S) β} {r : Except ε β} (he : Exec h (p >>= f).run s r t) :
    (∃ e, r = .error e ∧ Exec h p.run s (.error e) t) ∨
      ∃ a u, Exec h p.run s (.ok a) u ∧ Exec h (f a).run u r t := by
  obtain ⟨e | a, u, hp, hf⟩ := exec_bind.mp he
  · obtain ⟨rfl, rfl⟩ := hf
    exact Or.inl ⟨e, rfl, hp⟩
  · exact Or.inr ⟨a, u, hp, hf⟩

/-- More outcomes of the calls give more outcomes of the program. -/
theorem Exec.mono {h' : Handler S σ} (hh : ∀ c s r t, h c s r t → h' c s r t)
    {p : Program S α} {a : α} (he : Exec h p s a t) : Exec h' p s a t := by
  induction p generalizing s with
  | done b => exact he
  | call c next ih =>
    obtain ⟨r, u, hc, hr⟩ := he
    exact ⟨r, u, hh _ _ _ _ hc, ih r hr⟩

/-! ### The states on the way -/

/-- A state that some execution passes through, from its start to its end. -/
def Passes (h : Handler S σ) : Program S α → σ → σ → Prop
  | .done _, s, t => t = s
  | .call c next, s, t => t = s ∨ ∃ r u, h c s r u ∧ Passes h (next r) u t

theorem passes_perform {c : S.Call} :
    Passes h (Program.perform c) s t ↔ t = s ∨ ∃ r, h c s r t := by
  constructor
  · rintro (rfl | ⟨r, u, hc, rfl⟩)
    · exact Or.inl rfl
    · exact Or.inr ⟨r, hc⟩
  · rintro (rfl | ⟨r, hc⟩)
    · exact Or.inl rfl
    · exact Or.inr ⟨r, t, hc, rfl⟩

theorem passes_bind {p : Program S α} {f : α → Program S β} :
    Passes h (p >>= f) s t ↔
      Passes h p s t ∨ ∃ a u, Exec h p s a u ∧ Passes h (f a) u t := by
  change Passes h (p.bind f) s t ↔ _
  induction p generalizing s with
  | done a =>
    constructor
    · exact fun hf => Or.inr ⟨a, s, ⟨rfl, rfl⟩, hf⟩
    · rintro (rfl | ⟨a', u, ⟨rfl, rfl⟩, hf⟩)
      · change Passes h (f a) _ _
        cases f a with
        | done b => rfl
        | call c next => exact Or.inl rfl
      · exact hf
  | call c next ih =>
    constructor
    · rintro (rfl | ⟨r, u, hc, hr⟩)
      · exact Or.inl (Or.inl rfl)
      · rcases (ih r).mp hr with hp | ⟨a, v, ha, hf⟩
        · exact Or.inl (Or.inr ⟨r, u, hc, hp⟩)
        · exact Or.inr ⟨a, v, ⟨r, u, hc, ha⟩, hf⟩
    · rintro ((rfl | ⟨r, u, hc, hp⟩) | ⟨a, v, ⟨r, u, hc, ha⟩, hf⟩)
      · exact Or.inl rfl
      · exact Or.inr ⟨r, u, hc, (ih r).mpr (Or.inl hp)⟩
      · exact Or.inr ⟨r, u, hc, (ih r).mpr (Or.inr ⟨a, v, ha, hf⟩)⟩

theorem Exec.passes {p : Program S α} {a : α} (he : Exec h p s a t) : Passes h p s t := by
  induction p generalizing s with
  | done b => exact he.2
  | call c next ih =>
    obtain ⟨r, u, hc, hr⟩ := he
    exact Or.inr ⟨r, u, hc, ih r hr⟩

/-! ### The calls on the way -/

/-- Some execution comes to the call `c`, made in the state `u`. -/
def Issues (h : Handler S σ) : Program S α → σ → S.Call → σ → Prop
  | .done _, _, _, _ => False
  | .call c next, s, c', u => (c' = c ∧ u = s) ∨ ∃ r t, h c s r t ∧ Issues h (next r) t c' u

theorem issues_perform {c c' : S.Call} :
    Issues h (Program.perform c) s c' t ↔ c' = c ∧ t = s := by
  constructor
  · rintro (hc | ⟨r, u, -, hnone⟩)
    · exact hc
    · exact hnone.elim
  · exact Or.inl

theorem issues_bind {p : Program S α} {f : α → Program S β} {c : S.Call} :
    Issues h (p >>= f) s c t ↔
      Issues h p s c t ∨ ∃ a u, Exec h p s a u ∧ Issues h (f a) u c t := by
  change Issues h (p.bind f) s c t ↔ _
  induction p generalizing s with
  | done a =>
    constructor
    · exact fun hf => Or.inr ⟨a, s, ⟨rfl, rfl⟩, hf⟩
    · rintro (hnone | ⟨a', u, ⟨rfl, rfl⟩, hf⟩)
      · exact hnone.elim
      · exact hf
  | call c' next ih =>
    constructor
    · rintro (hc | ⟨r, u, hc, hr⟩)
      · exact Or.inl (Or.inl hc)
      · rcases (ih r).mp hr with hp | ⟨a, v, ha, hf⟩
        · exact Or.inl (Or.inr ⟨r, u, hc, hp⟩)
        · exact Or.inr ⟨a, v, ⟨r, u, hc, ha⟩, hf⟩
    · rintro ((hc | ⟨r, u, hc, hp⟩) | ⟨a, v, ⟨r, u, hc, ha⟩, hf⟩)
      · exact Or.inl hc
      · exact Or.inr ⟨r, u, hc, (ih r).mpr (Or.inl hp)⟩
      · exact Or.inr ⟨r, u, hc, (ih r).mpr (Or.inr ⟨a, v, ha, hf⟩)⟩

theorem Issues.passes {p : Program S α} {c : S.Call} (hi : Issues h p s c t) : Passes h p s t := by
  induction p generalizing s with
  | done a => exact hi.elim
  | call c' next ih =>
    rcases hi with ⟨-, rfl⟩ | ⟨r, u, hc, hr⟩
    · exact Or.inl rfl
    · exact Or.inr ⟨r, u, hc, ih r hr⟩

/-- What every call on the way preserves holds all the way. -/
theorem Passes.invariant {p : Program S α} {I : σ → Prop}
    (hstep : ∀ c u r v, Issues h p s c u → h c u r v → I u → I v) (hs : I s)
    (ht : Passes h p s t) : I t := by
  induction p generalizing s with
  | done a => exact ht ▸ hs
  | call c next ih =>
    rcases ht with rfl | ⟨r, u, hc, hu⟩
    · exact hs
    · refine ih r (fun c' v r' w hi => hstep c' v r' w (Or.inr ⟨r, u, hc, hi⟩)) ?_ hu
      exact hstep c s r u (Or.inl ⟨rfl, rfl⟩) hc hs

/-! ### Evaluation -/

/-- Evaluation with one answer per call; `none` where the server has none. -/
def eval (serve : (c : S.Call) → σ → Option (S.Answer c × σ)) : Program S α → σ → Option (α × σ)
  | .done a, s => some (a, s)
  | .call c next, s =>
    match serve c s with
    | none => none
    | some (r, u) => eval serve (next r) u

theorem exec_of_eval {serve : (c : S.Call) → σ → Option (S.Answer c × σ)}
    (hs : ∀ c s r t, serve c s = some (r, t) → h c s r t) {p : Program S α} {a : α}
    (he : eval serve p s = some (a, t)) : Exec h p s a t := by
  induction p generalizing s with
  | done b =>
    simp only [eval, Option.some.injEq, Prod.mk.injEq] at he
    exact ⟨he.1.symm, he.2.symm⟩
  | call c next ih =>
    unfold eval at he
    split at he
    · cases he
    · next r u hc => exact ⟨r, u, hs c s r u hc, ih r he⟩

theorem exists_exec_of_eval {serve : (c : S.Call) → σ → Option (S.Answer c × σ)}
    (hs : ∀ c s r t, serve c s = some (r, t) → h c s r t) {p : Program S α}
    {P : α × σ → Bool} (he : (eval serve p s).any P = true) :
    ∃ a t, Exec h p s a t ∧ P (a, t) = true := by
  cases hp : eval serve p s with
  | none =>
    rw [hp] at he
    cases he
  | some out =>
    rw [hp] at he
    exact ⟨out.1, out.2, exec_of_eval hs hp, he⟩

/-- The evaluation comes to a call that, in the state where it is made, satisfies `P`. -/
def comesTo (serve : (c : S.Call) → σ → Option (S.Answer c × σ)) (P : S.Call → σ → Bool) :
    Program S α → σ → Bool
  | .done _, _ => false
  | .call c next, s =>
    P c s || match serve c s with
      | none => false
      | some (r, u) => comesTo serve P (next r) u

theorem exists_issues_of_comesTo {serve : (c : S.Call) → σ → Option (S.Answer c × σ)}
    (hs : ∀ c s r t, serve c s = some (r, t) → h c s r t) {p : Program S α}
    {P : S.Call → σ → Bool} (hp : comesTo serve P p s = true) :
    ∃ c u, Issues h p s c u ∧ P c u = true := by
  induction p generalizing s with
  | done a => cases hp
  | call c next ih =>
    unfold comesTo at hp
    rcases Bool.or_eq_true_iff.mp hp with hc | hrest
    · exact ⟨c, s, Or.inl ⟨rfl, rfl⟩, hc⟩
    · split at hrest
      · cases hrest
      · next r u hserve =>
        obtain ⟨c', v, hi, hP⟩ := ih r hrest
        exact ⟨c', v, Or.inr ⟨r, u, hs c s r u hserve, hi⟩, hP⟩

/-! ### What every call of a program satisfies -/

/-- Each call the program can make, after whatever answers, satisfies `P`. -/
def Program.Calls (P : S.Call → Prop) : Program S α → Prop
  | .done _ => True
  | .call c next => P c ∧ ∀ r, (next r).Calls P

@[simp] theorem calls_pure {P : S.Call → Prop} (a : α) : (pure a : Program S α).Calls P :=
  trivial

@[simp] theorem calls_perform {P : S.Call → Prop} {c : S.Call} :
    (Program.perform c : Program S _).Calls P ↔ P c :=
  ⟨fun h => h.1, fun h => ⟨h, fun _ => trivial⟩⟩

theorem calls_bind {P : S.Call → Prop} {p : Program S α} {f : α → Program S β}
    (hp : p.Calls P) (hf : ∀ a, (f a).Calls P) : (p >>= f).Calls P := by
  change (p.bind f).Calls P
  induction p with
  | done a => exact hf a
  | call c next ih => exact ⟨hp.1, fun r => ih r (hp.2 r)⟩

theorem Program.Calls.trivial (p : Program S α) : p.Calls fun _ => True := by
  induction p with
  | done a => exact True.intro
  | call c next ih => exact ⟨True.intro, ih⟩

theorem Program.Calls.mono {P Q : S.Call → Prop} (hPQ : ∀ c, P c → Q c) {p : Program S α}
    (hp : p.Calls P) : p.Calls Q := by
  induction p with
  | done a => trivial
  | call c next ih => exact ⟨hPQ c hp.1, fun r => ih r (hp.2 r)⟩

/-- Executions carry over to a handler that allows what the calls of the program do. -/
theorem Program.Calls.exec_mono {P : S.Call → Prop} {h' : Handler S σ} {p : Program S α}
    (hp : p.Calls P) (hh : ∀ c s r t, P c → h c s r t → h' c s r t) {a : α}
    (he : Exec h p s a t) : Exec h' p s a t := by
  induction p generalizing s with
  | done b => exact he
  | call c next ih =>
    obtain ⟨r, u, hc, hr⟩ := he
    exact ⟨r, u, hh c s r u hp.1 hc, ih r (hp.2 r) hr⟩

theorem Program.Calls.issues {P : S.Call → Prop} {p : Program S α} (hp : p.Calls P) {c : S.Call}
    (hi : Issues h p s c t) : P c := by
  induction p generalizing s with
  | done a => exact hi.elim
  | call c' next ih =>
    rcases hi with ⟨rfl, -⟩ | ⟨r, u, -, hr⟩
    · exact hp.1
    · exact ih r (hp.2 r) hr

theorem Program.Calls.after {P : S.Call → Prop} {p : Program S α} {f : α → Program S β}
    (hp : (p >>= f).Calls P) {a : α} (he : Exec h p s a t) : (f a).Calls P := by
  change (p.bind f).Calls P at hp
  induction p generalizing s with
  | done b =>
    obtain ⟨rfl, -⟩ := he
    exact hp
  | call c next ih =>
    obtain ⟨r, u, -, hr⟩ := he
    exact ih r hr (hp.2 r)

theorem Program.Calls.of_bind {P : S.Call → Prop} {p : Program S α} {f : α → Program S β}
    (hp : (p >>= f).Calls P) : p.Calls P := by
  change (p.bind f).Calls P at hp
  induction p with
  | done a => trivial
  | call c next ih => exact ⟨hp.1, fun r => ih r (hp.2 r)⟩

/-- The frame rule: a preorder on states that contains every outcome of every
call of the program contains every execution of the program. -/
theorem Exec.frame {P : S.Call → Prop} {R : σ → σ → Prop} (hrefl : ∀ s, R s s)
    (htrans : ∀ s t u, R s t → R t u → R s u)
    (hstep : ∀ c s r t, P c → h c s r t → R s t)
    {p : Program S α} (hp : p.Calls P) {a : α} (he : Exec h p s a t) : R s t := by
  induction p generalizing s with
  | done b =>
    obtain ⟨-, rfl⟩ := he
    exact hrefl _
  | call c next ih =>
    obtain ⟨r, u, hc, hr⟩ := he
    exact htrans _ _ _ (hstep c s r u hp.1 hc) (ih r (hp.2 r) hr)

end Effect
