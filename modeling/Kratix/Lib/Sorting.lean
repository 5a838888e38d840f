import Mathlib.Data.List.Sort
import Mathlib.Tactic

/-!
# Lists sorted by a number

Facts about the first element and the initial segments of a list that has been
sorted by a numeric key, such as a creation time.
-/

namespace Sorting

variable {α : Type} (f : α → ℕ)

instance totalLE : Std.Total fun a b : α => f a ≤ f b := ⟨fun a b => le_total (f a) (f b)⟩

instance transLE : IsTrans α fun a b => f a ≤ f b := ⟨fun _ _ _ => le_trans⟩

instance totalGE : Std.Total fun a b : α => f b ≤ f a := ⟨fun a b => le_total (f b) (f a)⟩

instance transGE : IsTrans α fun a b => f b ≤ f a := ⟨fun _ _ _ h₁ h₂ => le_trans h₂ h₁⟩

variable {f} {l : List α}

/-- The first element of a list sorted downwards is a largest one. -/
theorem head?_descending {m : α}
    (h : (l.insertionSort fun a b => f b ≤ f a).head? = some m) :
    m ∈ l ∧ ∀ x ∈ l, f x ≤ f m := by
  have hperm := List.perm_insertionSort (fun a b => f b ≤ f a) l
  have hsort := List.pairwise_insertionSort (fun a b => f b ≤ f a) l
  cases hs : l.insertionSort fun a b => f b ≤ f a with
  | nil => simp [hs] at h
  | cons y ys =>
    rw [hs] at h hperm hsort
    obtain rfl : y = m := by simpa using h
    refine ⟨hperm.mem_iff.mp (by simp), fun x hx => ?_⟩
    rcases List.mem_cons.mp (hperm.mem_iff.mpr hx) with rfl | hx
    · exact le_rfl
    · exact (List.pairwise_cons.mp hsort).1 x hx

theorem head?_descending_eq_none :
    (l.insertionSort fun a b => f b ≤ f a).head? = none ↔ l = [] := by
  rw [List.head?_eq_none_iff, ← List.length_eq_zero_iff, List.length_insertionSort,
    List.length_eq_zero_iff]

/-- In a list with distinct keys, sorted upwards, a largest element is not among
the first ones when at least one element is left behind them. -/
theorem notMem_take_ascending (hnd : (l.map f).Nodup) {keep : ℕ} (hkeep : 0 < keep)
    (hlen : keep < l.length) {m : α} (hmax : ∀ x ∈ l, f x ≤ f m) :
    m ∉ (l.insertionSort fun a b => f a ≤ f b).take (l.length - keep) := by
  intro hm
  have hperm := List.perm_insertionSort (fun a b => f a ≤ f b) l
  set sorted := l.insertionSort fun a b => f a ≤ f b with hs
  set n := l.length - keep
  have hlength : sorted.length = l.length := hperm.length_eq
  have hn : n < sorted.length := by omega
  have hy : sorted[n] ∈ sorted.drop n := by
    rw [List.drop_eq_getElem_cons hn]
    exact List.mem_cons_self
  have hsplit : sorted.take n ++ sorted.drop n = sorted := List.take_append_drop n sorted
  have hsort : (sorted.take n ++ sorted.drop n).Pairwise fun a b => f a ≤ f b := by
    rw [hsplit]
    exact List.pairwise_insertionSort (fun a b => f a ≤ f b) l
  have hle : f m ≤ f sorted[n] := (List.pairwise_append.mp hsort).2.2 m hm _ hy
  have hge : f sorted[n] ≤ f m := hmax _ (hperm.mem_iff.mp (List.mem_of_mem_drop hy))
  have hndup : ((sorted.take n).map f ++ (sorted.drop n).map f).Nodup := by
    rw [← List.map_append, hsplit]
    exact (hperm.map f).nodup_iff.mpr hnd
  exact (List.nodup_append.mp hndup).2.2 (f m) (List.mem_map_of_mem hm) (f sorted[n])
    (List.mem_map_of_mem hy) (le_antisymm hle hge)

/-! ### Sorting is stable -/

theorem orderedInsert_append {a : α} {l₁ l₂ : List α} (h₁ : ∀ b ∈ l₁, f b < f a)
    (h₂ : ∀ b ∈ l₂, f a ≤ f b) :
    (l₁ ++ l₂).orderedInsert (fun a b => f a ≤ f b) a = l₁ ++ a :: l₂ := by
  induction l₁ with
  | nil =>
    cases l₂ with
    | nil => rfl
    | cons b l₂ => simp [h₂ b (by simp)]
  | cons b l₁ ih =>
    have hb : ¬ f a ≤ f b := Nat.not_le.mpr (h₁ b (by simp))
    simp [hb, ih fun c hc => h₁ c (by simp [hc])]

/-- The elements with the keys `0`, …, `n - 1`, those of one key in their order in the list. -/
def classes (f : α → ℕ) (n : ℕ) (l : List α) : List α :=
  (List.range n).flatMap fun i => l.filter fun x => f x = i

theorem mem_classes {n : ℕ} {x : α} : x ∈ classes f n l ↔ x ∈ l ∧ f x < n := by
  simp [classes, and_comm]

theorem classes_cons {n : ℕ} {a : α} (ha : f a < n) :
    classes f n (a :: l) = (classes f n l).orderedInsert (fun a b => f a ≤ f b) a := by
  obtain ⟨m, rfl⟩ : ∃ m, n = f a + (m + 1) := ⟨n - f a - 1, by omega⟩
  have hsplit : ∀ l', classes f (f a + (m + 1)) l' = classes f (f a) l' ++
      (l'.filter (fun x => f x = f a) ++
        (List.range m).flatMap fun i => l'.filter fun x => f x = f a + (i + 1)) := by
    intro l'
    simp [classes, List.range_add, List.range_succ_eq_map, List.flatMap_map]
  have hlow : classes f (f a) (a :: l) = classes f (f a) l := by
    apply List.flatMap_congr
    intro i hi
    rw [List.filter_cons_of_neg]
    simpa using (List.mem_range.mp hi).ne'
  have hhigh : ((List.range m).flatMap fun i => (a :: l).filter fun x => f x = f a + (i + 1)) =
      (List.range m).flatMap fun i => l.filter fun x => f x = f a + (i + 1) := by
    apply List.flatMap_congr
    intro i _
    rw [List.filter_cons_of_neg]
    simp
  rw [hsplit, hsplit, hlow, hhigh, orderedInsert_append]
  · simp
  · exact fun b hb => (mem_classes.mp hb).2
  · intro b hb
    simp only [List.mem_append, List.mem_filter, List.mem_flatMap, decide_eq_true_eq] at hb
    rcases hb with ⟨-, hb⟩ | ⟨i, -, -, hb⟩ <;> omega

/-- Sorting puts the classes of equal keys one after another and changes nothing within them. -/
theorem insertionSort_eq_classes {n : ℕ} (h : ∀ x ∈ l, f x < n) :
    l.insertionSort (fun a b => f a ≤ f b) = classes f n l := by
  induction l with
  | nil => simp [classes]
  | cons a l ih =>
    rw [List.insertionSort_cons, ih fun x hx => h x (by simp [hx]), classes_cons (h a (by simp))]

end Sorting
