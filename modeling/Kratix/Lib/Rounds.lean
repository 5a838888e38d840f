import Mathlib.Data.List.Chain
import Mathlib.Tactic

/-!
# Rounds in a log

The entries of a log are numbered. An entry is the first of a round, with
number zero, or it is numbered one higher than the entry before it and related
to it. From the last entry back to the nearest zero the log holds one round,
with all numbers from zero up to that of the last entry.
-/

namespace Rounds

variable {α : Type} (index : α → ℕ) (R : α → α → Prop)

/-- The second entry starts a round or continues the round of the first. -/
def Continues (a b : α) : Prop := 0 < index b → index b = index a + 1 ∧ R a b

variable {index R}

theorem exists_last_round {log : List α} {last : α}
    (hchain : (log ++ [last]).IsChain (Continues index R))
    (hstart : ∀ a ∈ (log ++ [last]).head?, index a = 0) :
    ∃ older round, log ++ [last] = older ++ round ∧ round.getLast? = some last ∧
      round.map index = List.range (index last + 1) ∧ round.IsChain R := by
  -- a round of one entry
  have hone : ∀ (log : List α) (last : α), index last = 0 → ∃ older round,
      log ++ [last] = older ++ round ∧ round.getLast? = some last ∧
        round.map index = List.range (index last + 1) ∧ round.IsChain R :=
    fun log last h => ⟨log, [last], rfl, rfl, by simp [h], .singleton last⟩
  induction log using List.reverseRecOn generalizing last with
  | nil => exact hone [] last (hstart last rfl)
  | append_singleton log a ih =>
    rcases Nat.eq_zero_or_pos (index last) with hzero | hpos
    · exact hone (log ++ [a]) last hzero
    obtain ⟨hchain, -, hcont⟩ := List.isChain_append.mp hchain
    obtain ⟨hindex, hR⟩ := hcont a (by simp) last rfl hpos
    obtain ⟨older, round, hsplit, hlast, hround, hrel⟩ := ih hchain
      (fun b hb => hstart b (by
        rw [List.head?_append, hb]
        rfl))
    refine ⟨older, round ++ [last], by rw [hsplit, List.append_assoc], by simp, ?_, ?_⟩
    · simp [hround, hindex, List.range_succ]
    · refine List.isChain_append.mpr ⟨hrel, .singleton last, ?_⟩
      rintro b hb c hc
      rw [hlast] at hb
      cases hb
      cases hc
      exact hR

/-- What related entries share, the whole round shares. -/
theorem eq_last_of_chain {β : Type} {f : α → β} {round : List α} {last : α}
    (hrel : round.IsChain fun a b => f a = f b) (hlast : round.getLast? = some last) :
    ∀ a ∈ round, f a = f last := by
  induction round with
  | nil => cases hlast
  | cons a round ih =>
    cases round with
    | nil =>
      cases hlast
      simp
    | cons b round =>
      rw [List.isChain_cons_cons] at hrel
      have hrest := ih hrel.2 hlast
      intro c hc
      rcases List.mem_cons.mp hc with rfl | hc
      · exact hrel.1.trans (hrest b (by simp))
      · exact hrest c hc

end Rounds
