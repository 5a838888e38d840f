import Kratix.Lib.Program
import Kratix.Lib.Writes

/-!
# Programs and requests that change nothing

`Still h Q p s` says that no call of `p`, executed from `s`, leaves another
state, and that `p` returns a value with `Q`. Such programs are composed by the
answers alone. `visited` lists the states of an evaluation, to show that a
program is not still. A request changes nothing when it writes what is stored.
-/

namespace Effect

variable {S : Signature} {σ α β : Type}

def Still (h : Handler S σ) (Q : α → Prop) : Program S α → σ → Prop
  | .done a, _ => Q a
  | .call c next, s => ∀ r t, h c s r t → t = s ∧ Still h Q (next r) s

section

variable {h : Handler S σ} {Q : α → Prop} {s t : σ}

theorem still_pure {a : α} (ha : Q a) : Still h Q (pure a : Program S α) s := ha

theorem still_perform {c : S.Call} {Q : S.Answer c → Prop}
    (hc : ∀ r t, h c s r t → t = s ∧ Q r) : Still h Q (Program.perform c) s := hc

theorem still_bind {R : β → Prop} {p : Program S α} {f : α → Program S β} (hp : Still h Q p s)
    (hf : ∀ a, Q a → Still h R (f a) s) : Still h R (p >>= f) s := by
  change Still h R (p.bind f) s
  induction p with
  | done a => exact hf a hp
  | call c next ih =>
    intro r t hc
    obtain ⟨ht, hnext⟩ := hp r t hc
    exact ⟨ht, ih r hnext⟩

/-- What every result has may be read off the executions. -/
theorem Still.of_exec {R : α → Prop} {p : Program S α} (hp : Still h Q p s)
    (hR : ∀ a, Exec h p s a s → R a) : Still h R p s := by
  induction p with
  | done a => exact hR a ⟨rfl, rfl⟩
  | call c next ih =>
    intro r t hc
    obtain ⟨rfl, hnext⟩ := hp r t hc
    exact ⟨rfl, ih r hnext fun a he => hR a ⟨r, t, hc, he⟩⟩

/-- The only state on the way is the one at the start. -/
theorem Still.passes {p : Program S α} (hp : Still h Q p s) (ht : Passes h p s t) : t = s := by
  induction p with
  | done a => exact ht
  | call c next ih =>
    rcases ht with rfl | ⟨r, u, hc, hu⟩
    · rfl
    · obtain ⟨rfl, hnext⟩ := hp r u hc
      exact ih r hnext hu

end

/-- The states of an evaluation, one before each call and the last one. -/
def visited (serve : (c : S.Call) → σ → Option (S.Answer c × σ)) : Program S α → σ → List σ
  | .done _, s => [s]
  | .call c next, s => s :: match serve c s with
    | none => []
    | some (r, u) => visited serve (next r) u

theorem passes_of_visited {h : Handler S σ}
    {serve : (c : S.Call) → σ → Option (S.Answer c × σ)}
    (hs : ∀ c s r t, serve c s = some (r, t) → h c s r t) {p : Program S α} {s t : σ}
    (ht : t ∈ visited serve p s) : Passes h p s t := by
  induction p generalizing s with
  | done a => exact List.mem_singleton.mp ht
  | call c next ih =>
    unfold visited at ht
    rcases List.mem_cons.mp ht with rfl | ht
    · exact Or.inl rfl
    · cases hserve : serve c s with
      | none =>
        rw [hserve] at ht
        cases ht
      | some out =>
        rw [hserve] at ht
        exact Or.inr ⟨out.1, out.2, hs c s out.1 out.2 hserve, ih out.1 ht⟩

end Effect

namespace Apiserver

variable {S : Scheme} {c : Cluster S} {k : S.Kind}

theorem Cluster.rewrite_eq_self {g : S.Obj k → Option (S.Obj k)} (hg : KeepsIdentity g)
    (hsame : ∀ o ∈ c.objects k, g o = some o) : c.rewrite k g hg = c := by
  have hobjects : (c.objects k).filterMap g = c.objects k := by
    rw [List.filterMap_congr hsame]
    exact List.filterMap_some
  cases c with
  | mk objects clock labels keys created lt =>
    simp only [Cluster.rewrite, Cluster.mk.injEq, and_true]
    rw [hobjects]
    exact Function.update_eq_self k objects

theorem Cluster.rewrite_atKey_eq_self {f : S.Obj k → Option (S.Obj k)} (hf : KeepsIdentity f)
    {key : String × String} {stored : S.Obj k} (hfind : c.find k key = some stored)
    (hsame : f stored = some stored) : c.rewrite k (atKey key f) hf.atKey = c := by
  refine Cluster.rewrite_eq_self hf.atKey fun o ho => ?_
  unfold atKey
  split
  · next hkey =>
    obtain ⟨hmem, hstored⟩ := c.find_eq_some.mp hfind
    rw [c.eq_of_key ho hmem (hkey.trans hstored.symm), hsame]
  · rfl

theorem serve_update_same {o stored : S.Obj k} (hfind : c.find k o.key = some stored)
    (hsame : (stored.accept o).settle = some stored) : (serve (.update k o) c).2 = c := by
  simp only [serve, hfind]
  split
  · rfl
  · split
    · next hv => exact Cluster.rewrite_atKey_eq_self (keepsIdentity_withWritten hv) hfind hsame
    · rfl

theorem serve_delete_same {ns name : String} {stored : S.Obj k}
    (hfind : c.find k (ns, name) = some stored) (hsame : stored.markDeleting.settle = some stored) :
    (serve (.delete k ns name) c).2 = c := by
  simp only [serve, hfind]
  exact Cluster.rewrite_atKey_eq_self keepsIdentity_withDeletion hfind hsame

end Apiserver
