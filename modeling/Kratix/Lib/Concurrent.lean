import Kratix.Lib.Program

/-!
# Programs that run concurrently

Several programs share one state, and any of them may make its next call. A
program is judged alone: `Within R G Q p s` says that each of its calls changes
the state as `G` allows, whatever the others change in the meantime as `R`
allows, and that it returns with `Q`. Programs whose changes the others tolerate
can then run together.
-/

namespace Effect

variable {S : Signature} {σ α β ι : Type}

/-- The program `i` of the pool makes the call `c`. -/
inductive Step [DecidableEq ι] (h : ι → Handler S σ) (i : ι) (c : S.Call) :
    (ι → Program S α) × σ → (ι → Program S α) × σ → Prop
  | call {pool : ι → Program S α} {s t : σ} {next : S.Answer c → Program S α} {r : S.Answer c}
      (hnext : pool i = .call c next) (hc : h i c s r t) :
      Step h i c (pool, s) (Function.update pool i (next r), t)

/-- What the programs of a pool reach by calls in any order. -/
def Interleaves [DecidableEq ι] (h : ι → Handler S σ) :
    (ι → Program S α) × σ → (ι → Program S α) × σ → Prop :=
  Relation.ReflTransGen fun x y => ∃ i c, Step h i c x y

/-- One program of the pool may run to its end before the others go on. -/
theorem Interleaves.of_exec [DecidableEq ι] {h : ι → Handler S σ} {i : ι} {a : α} {t : σ}
    {p : Program S α} {pool : ι → Program S α} {s : σ} (hpool : pool i = p)
    (he : Exec (h i) p s a t) :
    Interleaves h (pool, s) (Function.update pool i (.done a), t) := by
  induction p generalizing pool s with
  | done b =>
    obtain ⟨rfl, rfl⟩ := he
    rw [← hpool, Function.update_eq_self]
    exact .refl
  | call c next ih =>
    obtain ⟨r, u, hc, hr⟩ := he
    have hrest := ih r (Function.update_self i (next r) pool) hr
    rw [Function.update_idem] at hrest
    exact .head ⟨i, c, .call hpool hc⟩ hrest

/-- Evaluation of some programs of the pool, one after the other. -/
def runAll (serve : ι → (c : S.Call) → σ → Option (S.Answer c × σ)) (pool : ι → Program S α) :
    List ι → σ → Option σ
  | [], s => some s
  | i :: l, s => (eval (serve i) (pool i) s).bind fun out => runAll serve pool l out.2

theorem Interleaves.of_runAll [DecidableEq ι] {h : ι → Handler S σ}
    {serve : ι → (c : S.Call) → σ → Option (S.Answer c × σ)}
    (hs : ∀ i c s r t, serve i c s = some (r, t) → h i c s r t) {pool pool' : ι → Program S α}
    {l : List ι} (hl : l.Nodup) (hpool : ∀ i ∈ l, pool' i = pool i) {s t : σ}
    (hrun : runAll serve pool l s = some t) :
    ∃ pool'', Interleaves h (pool', s) (pool'', t) := by
  induction l generalizing pool' s with
  | nil =>
    obtain rfl := Option.some.inj hrun
    exact ⟨pool', .refl⟩
  | cons i l ih =>
    obtain ⟨hi, hl⟩ := List.nodup_cons.mp hl
    obtain ⟨⟨a, u⟩, heval, hrest⟩ := Option.bind_eq_some_iff.mp hrun
    have hfirst := Interleaves.of_exec (hpool i List.mem_cons_self) (exec_of_eval (hs i) heval)
    have hlater (j : ι) (hj : j ∈ l) : Function.update pool' i (.done a) j = pool j := by
      have hji : j ≠ i := fun heq => hi (heq ▸ hj)
      rw [Function.update_of_ne hji]
      exact hpool j (List.mem_cons_of_mem i hj)
    obtain ⟨pool'', hlast⟩ := ih hl hlater hrest
    exact ⟨pool'', hfirst.trans hlast⟩

/-- Under interference `R`, every call of the program changes the state as `G`
says, and the program ends with `Q`. -/
def Within (h : Handler S σ) (R : σ → σ → Prop) (G : S.Call → σ → σ → Prop) (Q : α → σ → Prop) :
    Program S α → σ → Prop
  | .done a, s => ∀ t, R s t → Q a t
  | .call c next, s => ∀ t, R s t → ∀ r u, h c t r u → G c t u ∧ Within h R G Q (next r) u

section

variable {h : Handler S σ} {R : σ → σ → Prop} {G : S.Call → σ → σ → Prop} {Q : α → σ → Prop}
  {s t : σ}

theorem Within.stable (htrans : ∀ s t u, R s t → R t u → R s u) {p : Program S α}
    (hp : Within h R G Q p s) (hst : R s t) : Within h R G Q p t := by
  cases p with
  | done a => exact fun u hu => hp u (htrans _ _ _ hst hu)
  | call c next => exact fun u hu => hp u (htrans _ _ _ hst hu)

theorem within_pure {a : α} (hq : ∀ t, R s t → Q a t) :
    Within h R G Q (pure a : Program S α) s := hq

theorem within_perform {c : S.Call} {Q : S.Answer c → σ → Prop}
    (hc : ∀ t, R s t → ∀ r u, h c t r u → G c t u ∧ ∀ v, R u v → Q r v) :
    Within h R G Q (Program.perform c) s :=
  fun t ht r u hu => hc t ht r u hu

theorem within_bind (hrefl : ∀ s, R s s) {M : β → σ → Prop} {p : Program S β}
    {f : β → Program S α} (hp : Within h R G M p s)
    (hf : ∀ b t, M b t → Within h R G Q (f b) t) : Within h R G Q (p >>= f) s := by
  change Within h R G Q (p.bind f) s
  induction p generalizing s with
  | done b => exact hf b s (hp s (hrefl s))
  | call c next ih =>
    intro t ht r u hu
    obtain ⟨hg, hnext⟩ := hp t ht r u hu
    exact ⟨hg, ih r hnext⟩

theorem Within.imp {Q' : α → σ → Prop} (hQ : ∀ a t, Q a t → Q' a t) {p : Program S α}
    (hp : Within h R G Q p s) : Within h R G Q' p s := by
  induction p generalizing s with
  | done a => exact fun t ht => hQ a t (hp t ht)
  | call c next ih => exact fun t ht r u hu => ⟨(hp t ht r u hu).1, ih r (hp t ht r u hu).2⟩

/-- What the others and each call of a class leave true holds in the end of a program
that makes only such calls. -/
theorem within_of_calls {P : S.Call → Prop} {I : σ → Prop} (hstable : ∀ s t, R s t → I s → I t)
    (hcall : ∀ c s r t, P c → I s → h c s r t → G c s t ∧ I t) {p : Program S α}
    (hp : p.Calls P) (hs : I s) : Within h R G (fun _ => I) p s := by
  induction p generalizing s with
  | done a => exact fun t ht => hstable s t ht hs
  | call c next ih =>
    intro t ht r u hu
    obtain ⟨hg, hnext⟩ := hcall c t r u hp.1 (hstable s t ht hs) hu
    exact ⟨hg, ih r (hp.2 r) hnext⟩

/-- The calls of a handler, while others change the state as `R` allows. -/
def amid (R : σ → σ → Prop) (h : Handler S σ) : Handler S σ :=
  fun c s r u => ∃ t, R s t ∧ h c t r u

theorem Within.exec (hrefl : ∀ s, R s s) {p : Program S α} (hp : Within h R G Q p s) {a : α}
    (he : Exec (amid R h) p s a t) : Q a t := by
  induction p generalizing s with
  | done b =>
    obtain ⟨rfl, rfl⟩ := he
    exact hp _ (hrefl _)
  | call c next ih =>
    obtain ⟨r, u, ⟨v, hv, hc⟩, hnext⟩ := he
    exact ih r (hp v hv r u hc).2 hnext

end

section

variable [DecidableEq ι] {h : ι → Handler S σ} {R : ι → σ → σ → Prop}
  {G : ι → S.Call → σ → σ → Prop} {Q : ι → α → σ → Prop}

theorem Step.within (htrans : ∀ i s t u, R i s t → R i t u → R i s u) (hrefl : ∀ i s, R i s s)
    (htolerates : ∀ i j c s t, i ≠ j → G i c s t → R j s t) {i : ι} {c : S.Call}
    {x y : (ι → Program S α) × σ} (hx : ∀ j, Within (h j) (R j) (G j) (Q j) (x.1 j) x.2)
    (hstep : Step h i c x y) :
    G i c x.2 y.2 ∧ ∀ j, Within (h j) (R j) (G j) (Q j) (y.1 j) y.2 := by
  cases hstep with
  | @call pool s t next r hnext hc =>
    have hi : Within (h i) (R i) (G i) (Q i) (.call c next) s := hnext ▸ hx i
    obtain ⟨hg, hrest⟩ := hi s (hrefl i s) r t hc
    refine ⟨hg, fun j => ?_⟩
    dsimp only
    by_cases hj : j = i
    · subst hj
      rw [Function.update_self]
      exact hrest
    · rw [Function.update_of_ne hj]
      exact (hx j).stable (htrans j) (htolerates i j c s t (Ne.symm hj) hg)

/-- Programs that tolerate each other's changes keep to them in any interleaving. -/
theorem Interleaves.within (htrans : ∀ i s t u, R i s t → R i t u → R i s u)
    (hrefl : ∀ i s, R i s s) (htolerates : ∀ i j c s t, i ≠ j → G i c s t → R j s t)
    {x y : (ι → Program S α) × σ} (hrun : Interleaves h x y)
    (hx : ∀ j, Within (h j) (R j) (G j) (Q j) (x.1 j) x.2) :
    ∀ j, Within (h j) (R j) (G j) (Q j) (y.1 j) y.2 := by
  induction hrun with
  | refl => exact hx
  | tail _ hstep ih =>
    obtain ⟨i, c, hstep⟩ := hstep
    exact (hstep.within htrans hrefl htolerates ih).2

/-- What every allowed change preserves holds throughout. -/
theorem Interleaves.invariant (htrans : ∀ i s t u, R i s t → R i t u → R i s u)
    (hrefl : ∀ i s, R i s s) (htolerates : ∀ i j c s t, i ≠ j → G i c s t → R j s t)
    {x y : (ι → Program S α) × σ} (hrun : Interleaves h x y)
    (hx : ∀ j, Within (h j) (R j) (G j) (Q j) (x.1 j) x.2) {P : σ → Prop}
    (hP : ∀ i c s t, G i c s t → P s → P t) (hs : P x.2) : P y.2 := by
  induction hrun with
  | refl => exact hs
  | tail hrun hstep ih =>
    obtain ⟨i, c, hstep⟩ := hstep
    have hmiddle := Interleaves.within htrans hrefl htolerates hrun hx
    exact hP i c _ _ (hstep.within htrans hrefl htolerates hmiddle).1 ih

end

/-! ### Programs that start again -/

/-- The programs of a pool make calls and start again when they are done, while the
surroundings `E` change the state. -/
inductive Turn [DecidableEq ι] (h : ι → Handler S σ) (start : ι → Program S α)
    (E : σ → σ → Prop) : (ι → Program S α) × σ → (ι → Program S α) × σ → Prop
  | call {x y : (ι → Program S α) × σ} {i : ι} {c : S.Call} (hstep : Step h i c x y) :
      Turn h start E x y
  | restart {pool : ι → Program S α} {s : σ} {i : ι} {a : α} (hdone : pool i = .done a) :
      Turn h start E (pool, s) (Function.update pool i (start i), s)
  | surroundings {pool : ι → Program S α} {s t : σ} (ht : E s t) :
      Turn h start E (pool, s) (pool, t)

/-- What the pool reaches when its programs are started again and again. -/
def Turns [DecidableEq ι] (h : ι → Handler S σ) (start : ι → Program S α) (E : σ → σ → Prop) :
    (ι → Program S α) × σ → (ι → Program S α) × σ → Prop :=
  Relation.ReflTransGen (Turn h start E)

/-- The pool in which programs have ended with these results. -/
def ended (start : ι → Program S α) (results : ι → Option α) (i : ι) : Program S α :=
  (results i).elim (start i) .done

theorem ended_of_some {start : ι → Program S α} {results : ι → Option α} {i : ι} {a : α}
    (hi : results i = some a) : ended start results i = .done a := by
  rw [ended, hi]
  rfl

section

variable [DecidableEq ι] {h : ι → Handler S σ} {start : ι → Program S α} {E : σ → σ → Prop}

theorem Turns.of_exec {pool : ι → Program S α} {s t : σ} {i : ι} {a : α}
    (he : Exec (h i) (pool i) s a t) :
    Turns h start E (pool, s) (Function.update pool i (.done a), t) := by
  refine Relation.ReflTransGen.mono (fun x y hxy => ?_) _ _ (Interleaves.of_exec rfl he)
  obtain ⟨i, c, hstep⟩ := hxy
  exact .call hstep

/-- A program that is done starts again and runs to its end. -/
theorem Turns.again {pool : ι → Program S α} {s t : σ} {i : ι} {a b : α} (hdone : pool i = .done a)
    (he : Exec (h i) (start i) s b t) :
    Turns h start E (pool, s) (Function.update pool i (.done b), t) := by
  have hrun : Turns h start E (Function.update pool i (start i), s)
      (Function.update (Function.update pool i (start i)) i (.done b), t) := by
    refine .of_exec ?_
    rw [Function.update_self]
    exact he
  rw [Function.update_idem] at hrun
  exact .head (.restart hdone) hrun

/-- Evaluation of runs of the programs, one after the other; `κ` chooses the outcomes. -/
def evalTurns {κ : Type} (serve : ι → κ → (c : S.Call) → σ → Option (S.Answer c × σ))
    (start : ι → Program S α) : List (ι × κ) → (ι → Option α) × σ → Option ((ι → Option α) × σ)
  | [], x => some x
  | (i, k) :: l, x => (eval (serve i k) (start i) x.2).bind fun out =>
    evalTurns serve start l (Function.update x.1 i (some out.1), out.2)

theorem update_ended (results : ι → Option α) (i : ι) (a : α) :
    Function.update (ended start results) i (.done a) =
      ended start (Function.update results i (some a)) := by
  funext j
  by_cases hj : j = i
  · subst hj
    simp [ended]
  · simp [ended, hj]

theorem Turns.of_evalTurns {κ : Type}
    {serve : ι → κ → (c : S.Call) → σ → Option (S.Answer c × σ)}
    (hs : ∀ i k c s r t, serve i k c s = some (r, t) → h i c s r t) {l : List (ι × κ)}
    {results results' : ι → Option α} {s t : σ}
    (hrun : evalTurns serve start l (results, s) = some (results', t)) :
    Turns h start E (ended start results, s) (ended start results', t) := by
  induction l generalizing results s with
  | nil =>
    cases hrun
    exact .refl
  | cons turn l ih =>
    obtain ⟨i, k⟩ := turn
    obtain ⟨⟨a, u⟩, heval, hrest⟩ := Option.bind_eq_some_iff.mp hrun
    have he : Exec (h i) (start i) s a u := exec_of_eval (hs i k) heval
    have hfirst : Turns h start E (ended start results, s)
        (Function.update (ended start results) i (.done a), u) := by
      cases hi : results i with
      | none =>
        refine .of_exec ?_
        rw [ended, hi]
        exact he
      | some b => exact .again (ended_of_some hi) he
    rw [update_ended] at hfirst
    exact hfirst.trans (ih hrest)

/-- Programs that tolerate the surroundings and each other keep to their postconditions,
when these let them start again. -/
theorem Turns.within {R : ι → σ → σ → Prop} {G : ι → S.Call → σ → σ → Prop}
    {Q : ι → α → σ → Prop} (htrans : ∀ i s t u, R i s t → R i t u → R i s u)
    (hrefl : ∀ i s, R i s s) (htolerates : ∀ i j c s t, i ≠ j → G i c s t → R j s t)
    (hE : ∀ i s t, E s t → R i s t)
    (hstart : ∀ i a s, Q i a s → Within (h i) (R i) (G i) (Q i) (start i) s)
    {x y : (ι → Program S α) × σ} (hrun : Turns h start E x y)
    (hx : ∀ j, Within (h j) (R j) (G j) (Q j) (x.1 j) x.2) :
    ∀ j, Within (h j) (R j) (G j) (Q j) (y.1 j) y.2 := by
  induction hrun with
  | refl => exact hx
  | tail _ hturn ih =>
    cases hturn with
    | call hstep => exact (hstep.within htrans hrefl htolerates ih).2
    | @restart pool s i a hdone =>
      intro j
      dsimp only
      by_cases hj : j = i
      · subst hj
        rw [Function.update_self]
        have hlast : Within (h j) (R j) (G j) (Q j) (.done a) s := hdone ▸ ih j
        exact hstart j a s (hlast s (hrefl j s))
      · rw [Function.update_of_ne hj]
        exact ih j
    | surroundings ht => exact fun j => (ih j).stable (htrans j) (hE j _ _ ht)

/-- What the surroundings and every allowed change preserve holds throughout. -/
theorem Turns.invariant {R : ι → σ → σ → Prop} {G : ι → S.Call → σ → σ → Prop}
    {Q : ι → α → σ → Prop} (htrans : ∀ i s t u, R i s t → R i t u → R i s u)
    (hrefl : ∀ i s, R i s s) (htolerates : ∀ i j c s t, i ≠ j → G i c s t → R j s t)
    (hE : ∀ i s t, E s t → R i s t)
    (hstart : ∀ i a s, Q i a s → Within (h i) (R i) (G i) (Q i) (start i) s)
    {x y : (ι → Program S α) × σ} (hrun : Turns h start E x y)
    (hx : ∀ j, Within (h j) (R j) (G j) (Q j) (x.1 j) x.2) {P : σ → Prop}
    (hG : ∀ i c s t, G i c s t → P s → P t) (hP : ∀ s t, E s t → P s → P t) (hs : P x.2) :
    P y.2 := by
  induction hrun with
  | refl => exact hs
  | tail hrun hturn ih =>
    have hmiddle := Turns.within htrans hrefl htolerates hE hstart hrun hx
    cases hturn with
    | call hstep => exact hG _ _ _ _ (hstep.within htrans hrefl htolerates hmiddle).1 ih
    | restart hdone => exact ih
    | surroundings ht => exact hP _ _ ht ih

end

end Effect
