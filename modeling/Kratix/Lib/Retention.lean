import Kratix.Lib.Sorting

/-!
# Keeping the newest elements of a list

Elements have a creation time. Of those that a selection picks, all but the `n`
newest are removed, and then the same is done for further selections. Removing
an element may leave something behind, an element marked as removed, which
later selections still see.
-/

namespace Retention

/-- When elements were created, and what is left of one that has been removed. -/
structure Removal (α : Type) where
  created : α → ℕ
  left : α → Option α
  created_left : ∀ a b, left a = some b → created b = created a
  left_left : ∀ a b, left a = some b → left b = some b

variable {α : Type} (m : Removal α) {n : ℕ} {l k : List α} {a : α}

/-- The selection does not tell a removed element from the one it was. -/
def Removal.Ignores (sel : α → Bool) : Prop := ∀ a b, m.left a = some b → sel b = sel a

def newer (sel : α → Bool) (l : List α) (a : α) : ℕ :=
  l.countP fun x => sel x && decide (m.created a < m.created x)

/-- Selected, and at least `n` of the selected elements are newer. -/
def beyond (n : ℕ) (sel : α → Bool) (l : List α) (a : α) : Bool :=
  sel a && decide (n ≤ newer m sel l a)

def remove (doomed : α → Bool) (l : List α) : List α :=
  l.filterMap fun a => if doomed a then m.left a else some a

def trim (n : ℕ) (sel : α → Bool) (l : List α) : List α := remove m (beyond m n sel l) l

/-- Trim for one selection after the other. -/
def trimAll (n : ℕ) : List (α → Bool) → List α → List α
  | [], l => l
  | sel :: sels, l => trimAll n sels (trim m n sel l)

/-- Removed for one of the selections. -/
def doomed (n : ℕ) : List (α → Bool) → List α → α → Bool
  | [], _, _ => false
  | sel :: sels, l, a => beyond m n sel l a || doomed n sels (trim m n sel l) a

/-! ### Removing -/

variable {m}

theorem beyond_iff {sel : α → Bool} :
    beyond m n sel l a = true ↔ sel a = true ∧ n ≤ newer m sel l a := by
  simp [beyond]

theorem remove_remove (d₁ d₂ : α → Bool) (l : List α) :
    remove m d₂ (remove m d₁ l) = remove m (fun a => d₁ a || d₂ a) l := by
  simp only [remove, List.filterMap_filterMap]
  refine congrArg (List.filterMap · l) (funext fun a => ?_)
  by_cases hd : d₁ a = true
  · cases hl : m.left a with
    | none => simp [hd]
    | some b => simp [hd, m.left_left a b hl]
  · simp [hd]

theorem remove_congr {d₁ d₂ : α → Bool} (h : ∀ a ∈ l, d₁ a = d₂ a) :
    remove m d₁ l = remove m d₂ l :=
  List.filterMap_congr fun a ha => by rw [h a ha]

theorem trimAll_eq_remove (sels : List (α → Bool)) (l : List α) :
    trimAll m n sels l = remove m (doomed m n sels l) l := by
  induction sels generalizing l with
  | nil => simp [trimAll, doomed, remove]
  | cons sel sels ih =>
    rw [trimAll, ih, trim, remove_remove]
    rfl

theorem countP_remove_le {sel d : α → Bool} (hsel : m.Ignores sel) (l : List α) :
    (remove m d l).countP sel ≤ l.countP sel := by
  induction l with
  | nil => exact le_rfl
  | cons a l ih =>
    rw [List.countP_cons]
    cases ha : (if d a then m.left a else some a) with
    | none =>
      have hskip : remove m d (a :: l) = remove m d l := by simp [remove, ha]
      rw [hskip]
      omega
    | some b =>
      have hcons : remove m d (a :: l) = b :: remove m d l := by simp [remove, ha]
      have hb : sel b = sel a := by
        by_cases hd : d a = true
        · rw [if_pos hd] at ha
          exact hsel a b ha
        · rw [if_neg hd] at ha
          rw [Option.some.inj ha]
      rw [hcons, List.countP_cons, hb]
      omega

theorem countP_remove {sel d : α → Bool} (hd : ∀ a ∈ l, d a = true → sel a = false)
    (hsel : m.Ignores sel) : (remove m d l).countP sel = l.countP sel := by
  induction l with
  | nil => rfl
  | cons a l ih =>
    have ih := ih fun x hx => hd x (List.mem_cons_of_mem a hx)
    rw [List.countP_cons, ← ih]
    by_cases hda : d a = true
    · have hsa := hd a List.mem_cons_self hda
      cases hl : m.left a with
      | none => simp [remove, hda, hl, hsa]
      | some b => simp [remove, hda, hl, hsa, hsel a b hl]
    · simp [remove, hda, List.countP_cons]

/-! ### How many are left -/

theorem newer_lt_of_mem {sel : α → Bool} (ha : a ∈ l) (hsel : sel a = true) :
    newer m sel l a < l.countP sel := by
  obtain ⟨l₁, l₂, rfl⟩ := List.append_of_mem ha
  have hle (l : List α) : l.countP (fun x => sel x && decide (m.created a < m.created x)) ≤
      l.countP sel :=
    List.countP_mono_left fun x _ hx => (Bool.and_eq_true_iff.mp hx).1
  have h₁ := hle l₁
  have h₂ := hle l₂
  simp only [newer, List.countP_append, List.countP_cons, hsel, lt_irrefl, decide_false,
    Bool.and_false, Bool.false_eq_true, if_false, if_true]
  omega

/-- In ascending order the first element has all the others after it. -/
theorem newer_head {sel : α → Bool} (h : (a :: l).Pairwise fun x y => m.created x < m.created y) :
    newer m sel (a :: l) a = l.countP sel := by
  have hlt := (List.pairwise_cons.mp h).1
  have hrest : l.countP (fun x => sel x && decide (m.created a < m.created x)) = l.countP sel :=
    List.countP_congr fun x hx => by simp [hlt x hx]
  simp [newer, hrest]

theorem newer_tail {sel : α → Bool} (h : (a :: l).Pairwise fun x y => m.created x < m.created y)
    {x : α} (hx : x ∈ l) : newer m sel (a :: l) x = newer m sel l x := by
  have hlt := (List.pairwise_cons.mp h).1 x hx
  have hnot : ¬ m.created x < m.created a := by omega
  simp [newer, hnot]

theorem newer_perm {sel : α → Bool} (h : l.Perm k) (a : α) : newer m sel l a = newer m sel k a :=
  h.countP_eq _

theorem exists_ascending (hnd : (l.map m.created).Nodup) :
    (l.insertionSort fun a b => m.created a ≤ m.created b).Pairwise
      fun x y => m.created x < m.created y := by
  have hperm := List.perm_insertionSort (fun a b => m.created a ≤ m.created b) l
  have hsort := List.pairwise_insertionSort (fun a b => m.created a ≤ m.created b) l
  have hne := List.pairwise_map.mp ((hperm.map m.created).nodup_iff.mpr hnd)
  exact (hsort.and hne).imp fun h => lt_of_le_of_ne h.1 h.2

/-- The selected elements that are not beyond the newest `n` are the newest `n`, or all. -/
theorem countP_not_beyond {sel : α → Bool} (hnd : (l.map m.created).Nodup) :
    l.countP (fun a => sel a && !beyond m n sel l a) = min n (l.countP sel) := by
  have hascending : ∀ k : List α, (k.Pairwise fun x y => m.created x < m.created y) →
      k.countP (fun a => sel a && !beyond m n sel k a) = min n (k.countP sel) := by
    intro k hk
    induction k with
    | nil => simp
    | cons a k ih =>
      have htail : k.countP (fun x => sel x && !beyond m n sel (a :: k) x) =
          k.countP (fun x => sel x && !beyond m n sel k x) :=
        List.countP_congr fun x hx => by simp only [beyond, newer_tail hk hx]
      rw [List.countP_cons, htail, ih (List.pairwise_cons.mp hk).2, List.countP_cons]
      by_cases hsel : sel a = true
      · by_cases hn : n ≤ k.countP sel
        · simp only [hsel, beyond, newer_head hk, hn, decide_true, Bool.and_true, Bool.not_true,
            Bool.and_false, Bool.false_eq_true, if_false, if_true]
          omega
        · simp only [hsel, beyond, newer_head hk, hn, decide_false, Bool.and_false, Bool.not_false,
            Bool.and_true, if_true]
          omega
      · simp [hsel]
  have hperm := List.perm_insertionSort (fun a b => m.created a ≤ m.created b) l
  have hsame := hascending _ (exists_ascending hnd)
  rw [hperm.countP_eq sel] at hsame
  rw [← hsame, hperm.countP_eq]
  exact List.countP_congr fun x _ => by simp only [beyond, newer_perm hperm]

/-- The oldest elements but the last `n` are those with at least `n` newer ones. -/
theorem mem_take_iff (hnd : (l.map m.created).Nodup) (ha : a ∈ l) :
    a ∈ (l.insertionSort fun a b => m.created a ≤ m.created b).take (l.length - n) ↔
      n ≤ newer m (fun _ => true) l a := by
  have hascending : ∀ k : List α, (k.Pairwise fun x y => m.created x < m.created y) → a ∈ k →
      (a ∈ k.take (k.length - n) ↔ n ≤ newer m (fun _ => true) k a) := by
    intro k hk hak
    induction k with
    | nil => cases hak
    | cons b k ih =>
      rcases List.mem_cons.mp hak with rfl | hak
      · rw [newer_head hk, List.countP_true]
        by_cases hn : n ≤ k.length
        · have hsub : (a :: k).length - n = (k.length - n) + 1 := by
            rw [List.length_cons]
            omega
          rw [hsub, List.take_succ_cons]
          exact iff_of_true List.mem_cons_self hn
        · have hzero : (a :: k).length - n = 0 := by
            rw [List.length_cons]
            omega
          rw [hzero, List.take_zero]
          exact iff_of_false List.not_mem_nil hn
      · have hlt := (List.pairwise_cons.mp hk).1 a hak
        have hne : a ≠ b := by
          rintro rfl
          exact lt_irrefl _ hlt
        rw [newer_tail hk hak, ← ih (List.pairwise_cons.mp hk).2 hak]
        by_cases hn : n ≤ k.length
        · have hsub : (b :: k).length - n = (k.length - n) + 1 := by
            rw [List.length_cons]
            omega
          rw [hsub, List.take_succ_cons, List.mem_cons]
          exact or_iff_right hne
        · have hzero : k.length - n = 0 := by omega
          have hzero' : (b :: k).length - n = 0 := by
            rw [List.length_cons]
            omega
          rw [hzero, hzero', List.take_zero, List.take_zero]
  have hperm := List.perm_insertionSort (fun a b => m.created a ≤ m.created b) l
  have hsame := hascending _ (exists_ascending hnd) (hperm.mem_iff.mpr ha)
  rwa [hperm.length_eq, newer_perm hperm] at hsame

/-! ### Trimming again -/

/-- Nothing has been added, as far as selections can tell. -/
def Shrinks (m : Removal α) (k l : List α) : Prop :=
  ∀ sel, m.Ignores sel → k.countP sel ≤ l.countP sel

theorem Shrinks.trans {j : List α} (h₁ : Shrinks m j k) (h₂ : Shrinks m k l) : Shrinks m j l :=
  fun sel hsel => (h₁ sel hsel).trans (h₂ sel hsel)

theorem shrinks_remove (d : α → Bool) (l : List α) : Shrinks m (remove m d l) l :=
  fun _ hsel => countP_remove_le hsel l

theorem shrinks_trimAll (sels : List (α → Bool)) (l : List α) :
    Shrinks m (trimAll m n sels l) l := by
  rw [trimAll_eq_remove]
  exact shrinks_remove _ _

theorem ignores_newer {sel : α → Bool} (hsel : m.Ignores sel) (a : α) :
    m.Ignores fun x => sel x && decide (m.created a < m.created x) := by
  intro x y hxy
  simp only [hsel x y hxy, m.created_left x y hxy]

theorem Shrinks.newer_le (h : Shrinks m k l) {sel : α → Bool} (hsel : m.Ignores sel) (a : α) :
    newer m sel k a ≤ newer m sel l a :=
  h _ (ignores_newer hsel a)

/-- What has been left by trimming is left by trimming again. -/
theorem doomed_of_shrinks {sels : List (α → Bool)} (hsels : ∀ sel ∈ sels, m.Ignores sel)
    (hk : Shrinks m k (trimAll m n sels l)) (ha : doomed m n sels l a = false) :
    doomed m n sels k a = false := by
  induction sels generalizing l k with
  | nil => rfl
  | cons sel sels ih =>
    have hsel := hsels sel List.mem_cons_self
    have hrest : ∀ s ∈ sels, m.Ignores s := fun s hs => hsels s (List.mem_cons_of_mem sel hs)
    simp only [doomed, Bool.or_eq_false_iff] at ha ⊢
    have hkl : Shrinks m k l := (hk.trans (shrinks_trimAll sels _)).trans (shrinks_remove _ l)
    refine ⟨?_, ih hrest ((shrinks_remove _ k).trans hk) ha.2⟩
    by_contra hbeyond
    obtain ⟨hs, hn⟩ := beyond_iff.mp (by simpa using hbeyond)
    have hle := hkl.newer_le hsel a
    have hnot : ¬ beyond m n sel l a = true := by simp [ha.1]
    exact hnot (beyond_iff.mpr ⟨hs, hn.trans hle⟩)

/-! ### Selecting one's own elements -/

/-- A selection, and the elements that it is meant to select. -/
structure Selection (α : Type) where
  sel : α → Bool
  own : α → Bool

/-- The groups are parts of what is `mine`, and they are told apart and found by
their selections; a selection may find elements of others besides. -/
structure Labelled (m : Removal α) (mine : α → Bool) (groups : List (Selection α)) (l : List α) :
    Prop where
  ignores : m.Ignores mine ∧ ∀ g ∈ groups, m.Ignores g.sel ∧ m.Ignores g.own
  mine_of_own : ∀ g ∈ groups, ∀ a ∈ l, g.own a = true → mine a = true
  sel_of_own : ∀ g ∈ groups, ∀ a ∈ l, g.own a = true → g.sel a = true
  own_of_sel : ∀ g ∈ groups, ∀ a ∈ l, mine a = true → g.sel a = true → g.own a = true
  apart : ∀ g ∈ groups, ∀ g' ∈ groups, g.own = g'.own ∨
    ∀ a ∈ l, g.own a = true → g'.own a = false

/-- Nothing of others is removed, and of each group all but the newest `n`; only
`live` elements are judged. -/
def Exact (m : Removal α) (n : ℕ) (live mine : α → Bool) (groups : List (Selection α)) (l : List α) :
    Prop :=
  ∀ a ∈ l, live a = true → (mine a = false → doomed m n (groups.map Selection.sel) l a = false) ∧
    ∀ g ∈ groups, g.own a = true →
      doomed m n (groups.map Selection.sel) l a = beyond m n g.own l a

theorem nodup_remove (d : α → Bool) (hnd : (l.map m.created).Nodup) :
    ((remove m d l).map m.created).Nodup := by
  rw [List.nodup_iff_count_le_one] at hnd ⊢
  intro time
  have htime : m.Ignores fun a => m.created a == time :=
    fun a b hab => by simp only [m.created_left a b hab]
  have hle := countP_remove_le (d := d) htime l
  have hone := hnd time
  rw [List.count_eq_countP, List.countP_map] at hone ⊢
  exact hle.trans hone

theorem countP_le_remove {sel d : α → Bool} (h : ∀ a ∈ l, sel a = true → d a = false) :
    l.countP sel ≤ (remove m d l).countP sel := by
  induction l with
  | nil => exact le_rfl
  | cons a l ih =>
    have ih := ih fun x hx => h x (List.mem_cons_of_mem a hx)
    rw [List.countP_cons]
    by_cases hd : d a = true
    · have hsel : ¬ sel a = true := fun hs => by simp [h a List.mem_cons_self hs] at hd
      rw [if_neg hsel]
      refine ih.trans ?_
      simp only [remove, List.filterMap_cons, hd, if_true]
      split
      · exact le_rfl
      · rw [List.countP_cons]
        exact Nat.le_add_right _ _
    · have hcons : remove m d (a :: l) = a :: remove m d l := by simp [remove, hd]
      rw [hcons, List.countP_cons]
      omega

theorem countP_left_le {sels : List (α → Bool)} {sel : α → Bool} (hsel : sel ∈ sels)
    (hnd : (l.map m.created).Nodup) :
    l.countP (fun a => sel a && !doomed m n sels l a) ≤ n := by
  induction sels generalizing l with
  | nil => cases hsel
  | cons s sels ih =>
    rcases List.mem_cons.mp hsel with rfl | hsel
    · calc l.countP (fun a => sel a && !doomed m n (sel :: sels) l a)
          ≤ l.countP (fun a => sel a && !beyond m n sel l a) := by
            refine List.countP_mono_left fun a _ h => ?_
            simp only [doomed, Bool.and_eq_true, Bool.not_eq_true', Bool.or_eq_false_iff] at h ⊢
            exact ⟨h.1, h.2.1⟩
        _ = min n (l.countP sel) := countP_not_beyond hnd
        _ ≤ n := min_le_left _ _
    · -- an element that is left in the end is left by the first selection
      have hfirst (a : α) (h : (sel a && !doomed m n (s :: sels) l a) = true) :
          beyond m n s l a = false ∧ (sel a && !doomed m n sels (trim m n s l) a) = true := by
        simp only [doomed, Bool.and_eq_true, Bool.not_eq_true', Bool.or_eq_false_iff] at h ⊢
        exact ⟨h.2.1, h.1, h.2.2⟩
      calc l.countP (fun a => sel a && !doomed m n (s :: sels) l a)
          ≤ (trim m n s l).countP (fun a => sel a && !doomed m n (s :: sels) l a) :=
            countP_le_remove fun a _ h => (hfirst a h).1
        _ ≤ (trim m n s l).countP (fun a => sel a && !doomed m n sels (trim m n s l) a) :=
            List.countP_mono_left fun a _ h => (hfirst a h).2
        _ ≤ n := ih hsel (nodup_remove (beyond m n s l) hnd)

theorem mem_remove {d : α → Bool} {b : α} (hb : b ∈ remove m d l) :
    ∃ a ∈ l, b = a ∨ m.left a = some b := by
  obtain ⟨a, ha, hab⟩ := List.mem_filterMap.mp hb
  split_ifs at hab
  · exact ⟨a, ha, Or.inr hab⟩
  · exact ⟨a, ha, Or.inl (Option.some.inj hab).symm⟩

theorem mem_remove_of_not {d : α → Bool} (ha : a ∈ l) (hd : d a = false) : a ∈ remove m d l :=
  List.mem_filterMap.mpr ⟨a, ha, by simp [hd]⟩

theorem countP_lt_countP {P Q : α → Bool} (hPQ : ∀ x ∈ l, P x = true → Q x = true) (ha : a ∈ l)
    (hP : P a = false) (hQ : Q a = true) : l.countP P < l.countP Q := by
  obtain ⟨l₁, l₂, rfl⟩ := List.append_of_mem ha
  have h₁ := List.countP_mono_left (l := l₁) fun x hx => hPQ x (by simp [hx])
  have h₂ := List.countP_mono_left (l := l₂) fun x hx => hPQ x (by simp [hx])
  simp only [List.countP_append, List.countP_cons, hP, hQ, Bool.false_eq_true, if_false, if_true]
  omega

theorem remove_of_not {d : α → Bool} (h : ∀ a ∈ l, d a = false) : remove m d l = l := by
  induction l with
  | nil => rfl
  | cons a l ih =>
    have ih := ih fun x hx => h x (List.mem_cons_of_mem a hx)
    simp only [remove] at ih
    simp [remove, h a List.mem_cons_self, ih]

variable {live mine : α → Bool} {groups : List (Selection α)}

theorem Labelled.tail {g : Selection α} (h : Labelled m mine (g :: groups) l) :
    Labelled m mine groups l where
  ignores := ⟨h.ignores.1, fun g' hg' => h.ignores.2 g' (List.mem_cons_of_mem g hg')⟩
  mine_of_own := fun g' hg' => h.mine_of_own g' (List.mem_cons_of_mem g hg')
  sel_of_own := fun g' hg' => h.sel_of_own g' (List.mem_cons_of_mem g hg')
  own_of_sel := fun g' hg' => h.own_of_sel g' (List.mem_cons_of_mem g hg')
  apart := fun g₁ h₁ g₂ h₂ =>
    h.apart g₁ (List.mem_cons_of_mem g h₁) g₂ (List.mem_cons_of_mem g h₂)

theorem Removal.Ignores.eq_of_mem {sel : α → Bool} (hsel : m.Ignores sel) {a b : α}
    (h : b = a ∨ m.left a = some b) : sel b = sel a := by
  rcases h with rfl | h
  · rfl
  · exact hsel a b h

theorem Labelled.remove (h : Labelled m mine groups l) (d : α → Bool) :
    Labelled m mine groups (remove m d l) where
  ignores := h.ignores
  mine_of_own := by
    intro g hg b hb
    obtain ⟨a, ha, hab⟩ := mem_remove hb
    rw [(h.ignores.2 g hg).2.eq_of_mem hab, Removal.Ignores.eq_of_mem h.ignores.1 hab]
    exact h.mine_of_own g hg a ha
  sel_of_own := by
    intro g hg b hb
    obtain ⟨a, ha, hab⟩ := mem_remove hb
    rw [(h.ignores.2 g hg).2.eq_of_mem hab, (h.ignores.2 g hg).1.eq_of_mem hab]
    exact h.sel_of_own g hg a ha
  own_of_sel := by
    intro g hg b hb
    obtain ⟨a, ha, hab⟩ := mem_remove hb
    rw [(h.ignores.2 g hg).2.eq_of_mem hab, (h.ignores.2 g hg).1.eq_of_mem hab,
      Removal.Ignores.eq_of_mem h.ignores.1 hab]
    exact h.own_of_sel g hg a ha
  apart := by
    intro g₁ h₁ g₂ h₂
    refine (h.apart g₁ h₁ g₂ h₂).imp_right fun hdis b hb => ?_
    obtain ⟨a, ha, hab⟩ := mem_remove hb
    rw [(h.ignores.2 g₁ h₁).2.eq_of_mem hab, (h.ignores.2 g₂ h₂).2.eq_of_mem hab]
    exact hdis a ha

/-- If exactly the right elements are removed although more than `n` are
selected, then none of them is of others. -/
theorem Exact.own_of_sel (h : Exact m n live mine groups l) (hl : Labelled m mine groups l)
    (hlive : ∀ a ∈ l, live a = true) (hnd : (l.map m.created).Nodup) {g : Selection α} (hg : g ∈ groups) (hn : n < l.countP g.sel)
    (ha : a ∈ l) (hsel : g.sel a = true) : g.own a = true := by
  by_contra hown
  have hstays (x : α) (hx : x ∈ l) (hxs : g.sel x = true) (hxo : ¬ g.own x = true) :
      doomed m n (groups.map Selection.sel) l x = false := by
    refine (h x hx (hlive x hx)).1 ?_
    by_contra hmine
    exact hxo (hl.own_of_sel g hg x hx (by simpa using hmine) hxs)
  have hleft : l.countP (fun x => g.sel x && !doomed m n (groups.map Selection.sel) l x) ≤ n :=
    countP_left_le (List.mem_map_of_mem hg) hnd
  -- the newest of the group stay, and so does `a`
  have hkept : l.countP (fun x => g.own x && !beyond m n g.own l x) <
      l.countP (fun x => g.sel x && !doomed m n (groups.map Selection.sel) l x) := by
    refine countP_lt_countP (fun x hx hP => ?_) ha (by simp [hown])
      (by simp [hsel, hstays a ha hsel hown])
    simp only [Bool.and_eq_true, Bool.not_eq_true'] at hP ⊢
    exact ⟨hl.sel_of_own g hg x hx hP.1, ((h x hx (hlive x hx)).2 g hg hP.1).trans hP.2⟩
  rw [countP_not_beyond hnd] at hkept
  -- so the group has less than `n` elements, and nothing at all is removed
  have hall : l.countP g.sel ≤
      l.countP (fun x => g.sel x && !doomed m n (groups.map Selection.sel) l x) := by
    refine List.countP_mono_left fun x hx hxs => ?_
    by_cases hxo : g.own x = true
    · have hlt := newer_lt_of_mem (m := m) hx hxo
      have hno : beyond m n g.own l x = false := by
        by_contra hb
        have := (beyond_iff.mp (by simpa using hb)).2
        omega
      rw [(h x hx (hlive x hx)).2 g hg hxo, hno, hxs]
      rfl
    · rw [hstays x hx hxs hxo, hxs]
      rfl
  omega

/-- With every selection small or finding only its own elements, each element
is removed by the group it belongs to. -/
theorem doomed_iff_of_own (hl : Labelled m mine groups l)
    (h : ∀ g ∈ groups, l.countP g.sel ≤ n ∨ ∀ a ∈ l, g.sel a = true → g.own a = true) (ha : a ∈ l) :
    doomed m n (groups.map Selection.sel) l a = true ↔
      ∃ g ∈ groups, beyond m n g.own l a = true := by
  induction groups generalizing l with
  | nil => simp [doomed]
  | cons g groups ih =>
    rw [List.map_cons, doomed, Bool.or_eq_true]
    rcases h g List.mem_cons_self with hfew | hown
    · -- nothing is removed for this group
      have hnone (sel : α → Bool) (hle : l.countP sel ≤ n) (x : α) (hx : x ∈ l) :
          beyond m n sel l x = false := by
        by_contra hb
        obtain ⟨hs, hn⟩ := beyond_iff.mp (by simpa using hb)
        have := newer_lt_of_mem (m := m) hx hs
        omega
      have hfew' : l.countP g.own ≤ n :=
        (List.countP_mono_left fun x hx => hl.sel_of_own g List.mem_cons_self x hx).trans hfew
      have htrim : trim m n g.sel l = l := remove_of_not fun x hx => hnone g.sel hfew x hx
      rw [htrim, hnone g.sel hfew a ha, ih hl.tail (fun g' hg' => h g' (by simp [hg'])) ha]
      simp [hnone g.own hfew' a ha]
    · have hsame (x : α) (hx : x ∈ l) : g.sel x = g.own x :=
        Bool.eq_iff_iff.mpr ⟨hown x hx, hl.sel_of_own g List.mem_cons_self x hx⟩
      have hbeyond (x : α) (hx : x ∈ l) : beyond m n g.sel l x = beyond m n g.own l x := by
        have hnewer : newer m g.sel l x = newer m g.own l x :=
          List.countP_congr fun y hy => by rw [hsame y hy]
        rw [beyond, beyond, hsame x hx, hnewer]
      rw [hbeyond a ha]
      by_cases hb : beyond m n g.own l a = true
      · simp [hb]
      · have ha' : a ∈ trim m n g.sel l :=
          mem_remove_of_not ha (by simpa [hbeyond a ha] using hb)
        have hsmall : ∀ g' ∈ groups, (trim m n g.sel l).countP g'.sel ≤ n ∨
            ∀ x ∈ trim m n g.sel l, g'.sel x = true → g'.own x = true := by
          intro g' hg'
          have hig' := hl.tail.ignores.2 g' hg'
          refine (h g' (by simp [hg'])).imp (countP_remove_le hig'.1 l).trans fun hall x hx => ?_
          obtain ⟨y, hy, hyx⟩ := mem_remove hx
          rw [hig'.1.eq_of_mem hyx, hig'.2.eq_of_mem hyx]
          exact hall y hy
        have hrest := ih (l := trim m n g.sel l) (hl.tail.remove _) hsmall ha'
        have hkeeps (g' : Selection α) (hg' : g' ∈ groups) :
            beyond m n g'.own (trim m n g.sel l) a = beyond m n g'.own l a := by
          have hig' := (hl.tail.ignores.2 g' hg').2
          rcases hl.apart g (by simp) g' (by simp [hg']) with heq | hdis
          · rw [heq] at hb
            have hle := (shrinks_remove (beyond m n g.sel l) l).newer_le hig' a
            rw [Bool.eq_false_iff.mpr hb, Bool.eq_false_iff]
            intro hb'
            obtain ⟨hs, hn⟩ := beyond_iff.mp hb'
            exact hb (beyond_iff.mpr ⟨hs, hn.trans hle⟩)
          · have hnewer : newer m g'.own (trim m n g.sel l) a = newer m g'.own l a := by
              refine countP_remove (fun x hx hd => ?_) (ignores_newer hig' a)
              rw [hbeyond x hx] at hd
              rw [hdis x hx (beyond_iff.mp hd).1, Bool.false_and]
            rw [beyond, beyond, hnewer]
        rw [hrest, List.exists_mem_cons_iff]
        refine or_congr_right (exists_congr fun g' => and_congr_right fun hg' => ?_)
        rw [hkeeps g' hg']

theorem exact_iff (hl : Labelled m mine groups l) (hlive : ∀ a ∈ l, live a = true)
    (hnd : (l.map m.created).Nodup) : Exact m n live mine groups l ↔
      ∀ g ∈ groups, l.countP g.sel ≤ n ∨ ∀ a ∈ l, g.sel a = true → g.own a = true := by
  constructor
  · intro h g hg
    by_cases hn : n < l.countP g.sel
    · exact Or.inr fun a ha => h.own_of_sel hl hlive hnd hg hn ha
    · exact Or.inl (by omega)
  · intro h a ha _
    have hiff := doomed_iff_of_own hl h ha
    refine ⟨fun hmine => ?_, fun g hg hown => ?_⟩
    · by_contra hdoomed
      obtain ⟨g, hg, hbeyond⟩ := hiff.mp (by simpa using hdoomed)
      have := hl.mine_of_own g hg a ha (beyond_iff.mp hbeyond).1
      rw [hmine] at this
      cases this
    · rw [Bool.eq_iff_iff, hiff]
      constructor
      · rintro ⟨g', hg', hbeyond⟩
        rcases hl.apart g hg g' hg' with heq | hdis
        · rwa [heq]
        · have := hdis a ha hown
          rw [(beyond_iff.mp hbeyond).1] at this
          cases this
      · exact fun hbeyond => ⟨g, hg, hbeyond⟩

end Retention
