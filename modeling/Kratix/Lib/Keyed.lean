import Kratix.Lib.Labels

/-!
# Lists whose elements carry a key

A list in which every element has a key of its own is, up to its order, a map
from keys to elements. Such lists are merged through a map and listed again.
-/

namespace Keyed

variable {α κ : Type} {key : α → Option κ}

/-- Every element has a key, and no two have the same. -/
structure Distinct (key : α → Option κ) (l : List α) : Prop where
  keyed : ∀ a ∈ l, ∃ k, key a = some k
  nodup : (l.map key).Nodup

theorem distinct_nil : Distinct key [] := ⟨by simp, List.nodup_nil⟩

variable [DecidableEq κ]

/-- The first element with the key. -/
def entry (key : α → Option κ) (l : List α) (k : κ) : Option α :=
  l.find? fun a => key a = some k

theorem Distinct.entry_eq_some {l : List α} (h : Distinct key l) {k : κ} {a : α} :
    entry key l k = some a ↔ a ∈ l ∧ key a = some k := by
  constructor
  · intro ha
    exact ⟨List.mem_of_find?_eq_some ha, by simpa using List.find?_some ha⟩
  · rintro ⟨hmem, hk⟩
    cases hfind : entry key l k with
    | none => exact absurd hk (by simpa using List.find?_eq_none.mp hfind a hmem)
    | some b =>
      have hb : key b = some k := by simpa using List.find?_some hfind
      rw [List.inj_on_of_nodup_map h.nodup (List.mem_of_find?_eq_some hfind) hmem (hb.trans hk.symm)]

/-- Up to the order, the list is what is found under the keys. -/
theorem Distinct.perm_iff {l l' : List α} (h : Distinct key l) (h' : Distinct key l') :
    l.Perm l' ↔ ∀ k, entry key l k = entry key l' k := by
  constructor
  · intro hp k
    ext a
    rw [h.entry_eq_some, h'.entry_eq_some, hp.mem_iff]
  · intro hentry
    refine (List.perm_ext_iff_of_nodup (.of_map _ h.nodup) (.of_map _ h'.nodup)).mpr fun a => ?_
    constructor
    · intro ha
      obtain ⟨k, hk⟩ := h.keyed a ha
      exact (h'.entry_eq_some.mp (hentry k ▸ h.entry_eq_some.mpr ⟨ha, hk⟩)).1
    · intro ha
      obtain ⟨k, hk⟩ := h'.keyed a ha
      exact (h.entry_eq_some.mp (hentry k ▸ h'.entry_eq_some.mpr ⟨ha, hk⟩)).1

/-! ### Collecting by key -/

/-- The elements that have a key, under their keys; a later one replaces an earlier one. -/
def collect (key : α → Option κ) : List α → (AList fun _ : κ => α) → AList fun _ : κ => α
  | [], m => m
  | a :: rest, m =>
    match key a with
    | none => collect key rest m
    | some k => collect key rest (m.insert k a)

theorem lookup_collect {l : List α} (h : Distinct key l) (m : AList fun _ : κ => α) (k : κ) :
    (collect key l m).lookup k = (entry key l k).or (m.lookup k) := by
  induction l generalizing m with
  | nil => rfl
  | cons a rest ih =>
    obtain ⟨k', hk'⟩ := h.keyed a List.mem_cons_self
    have hnodup := List.nodup_cons.mp h.nodup
    have hrest : Distinct key rest :=
      ⟨fun b hb => h.keyed b (List.mem_cons_of_mem _ hb), hnodup.2⟩
    simp only [collect, hk']
    rw [ih hrest]
    by_cases hkk : k = k'
    · subst hkk
      -- no later element has the key
      have hnone : entry key rest k = none := by
        refine List.find?_eq_none.mpr fun b hb hbk => hnodup.1 ?_
        exact List.mem_map.mpr ⟨b, hb, (of_decide_eq_true hbk).trans hk'.symm⟩
      have hfirst : entry key (a :: rest) k = some a := by simp [entry, hk']
      rw [hnone, hfirst, AList.lookup_insert]
      rfl
    · have hskip : entry key (a :: rest) k = entry key rest k := by
        simp [entry, hk', Ne.symm hkk]
      rw [hskip, AList.lookup_insert_ne hkk]

/-- Every element stands under its own key. -/
def Proper (key : α → Option κ) (m : AList fun _ : κ => α) : Prop :=
  ∀ k a, m.lookup k = some a → key a = some k

theorem proper_collect (l : List α) {m : AList fun _ : κ => α} (hm : Proper key m) :
    Proper key (collect key l m) := by
  induction l generalizing m with
  | nil => exact hm
  | cons a rest ih =>
    unfold collect
    split
    · exact ih hm
    · next k hk =>
      refine ih fun k' a' h => ?_
      by_cases hkk : k' = k
      · subst hkk
        rw [AList.lookup_insert] at h
        cases h
        exact hk
      · rw [AList.lookup_insert_ne hkk] at h
        exact hm k' a' h

/-! ### Listing a map -/

/-- The elements of the map in the order in which the keys are given. -/
def listed (keys : List κ) (m : AList fun _ : κ => α) : List α := keys.filterMap m.lookup

variable {m : AList fun _ : κ => α} {keys : List κ}

theorem mem_listed (hkeys : keys.Perm m.keys) {a : α} :
    a ∈ listed keys m ↔ ∃ k, m.lookup k = some a := by
  rw [listed, List.mem_filterMap]
  constructor
  · rintro ⟨k, -, hk⟩
    exact ⟨k, hk⟩
  · rintro ⟨k, hk⟩
    have hmem : k ∈ m := AList.lookup_isSome.mp (by rw [hk]; rfl)
    exact ⟨k, hkeys.mem_iff.mpr (AList.mem_keys.mp hmem), hk⟩

theorem distinct_listed (hm : Proper key m) (hkeys : keys.Perm m.keys) :
    Distinct key (listed keys m) := by
  refine ⟨fun a ha => ?_, ?_⟩
  · obtain ⟨k, hk⟩ := (mem_listed hkeys).mp ha
    exact ⟨k, hm k a hk⟩
  · have hnodup : keys.Nodup := hkeys.nodup_iff.mpr m.keys_nodup
    rw [listed, List.map_filterMap]
    refine hnodup.filterMap fun k k' b hb hb' => ?_
    obtain ⟨a, ha, rfl⟩ := Option.map_eq_some_iff.mp hb
    obtain ⟨a', ha', hkey⟩ := Option.map_eq_some_iff.mp hb'
    rw [hm k a ha, hm k' a' ha'] at hkey
    exact (Option.some.inj hkey).symm

theorem entry_listed (hm : Proper key m) (hkeys : keys.Perm m.keys) (k : κ) :
    entry key (listed keys m) k = m.lookup k := by
  ext a
  rw [(distinct_listed hm hkeys).entry_eq_some, mem_listed hkeys]
  constructor
  · rintro ⟨⟨k', hk'⟩, hk⟩
    rw [hm k' a hk'] at hk
    rwa [← Option.some.inj hk]
  · exact fun h => ⟨⟨k, h⟩, hm k a h⟩

/-! ### Replacing one element -/

/-- Replace the first element with the key, or add the new one at the end. -/
def put (key : α → Option κ) (k : κ) (new : α) : List α → List α
  | [] => [new]
  | a :: rest => if key a = some k then new :: rest else a :: put key k new rest

theorem map_put (k : κ) {new : α} (hnew : key new = some k) (l : List α) :
    (put key k new l).map key = if some k ∈ l.map key then l.map key else l.map key ++ [some k] := by
  induction l with
  | nil => simp [put, hnew]
  | cons a rest ih =>
    by_cases ha : key a = some k
    · simp [put, ha, hnew]
    · rw [put, if_neg ha, List.map_cons, ih]
      by_cases hmem : some k ∈ rest.map key
      · simp [hmem]
      · have hne : ¬ some k = key a := fun h => ha h.symm
        simp only [List.map_cons, List.mem_cons, hmem, hne, or_self, if_false, List.cons_append]

theorem distinct_put {l : List α} (h : Distinct key l) {k : κ} {new : α}
    (hnew : key new = some k) : Distinct key (put key k new l) := by
  have hmap := map_put k hnew l
  refine ⟨fun a ha => ?_, ?_⟩
  · have hmem : key a ∈ (put key k new l).map key := List.mem_map_of_mem ha
    rw [hmap] at hmem
    have hcases : key a ∈ l.map key ∨ key a = some k := by
      split at hmem
      · exact Or.inl hmem
      · simpa using hmem
    rcases hcases with hmem | hk
    · obtain ⟨b, hb, hba⟩ := List.mem_map.mp hmem
      obtain ⟨k', hk'⟩ := h.keyed b hb
      exact ⟨k', hba.symm.trans hk'⟩
    · exact ⟨k, hk⟩
  · rw [hmap]
    split
    · exact h.nodup
    · next hnot => exact List.nodup_append.mpr ⟨h.nodup, by simp, by simpa using hnot⟩

theorem entry_put {k : κ} {new : α} (hnew : key new = some k) (l : List α) (k' : κ) :
    entry key (put key k new l) k' = if k' = k then some new else entry key l k' := by
  induction l with
  | nil =>
    by_cases h : k' = k
    · simp [put, entry, hnew, h]
    · simp [put, entry, hnew, h, Ne.symm h]
  | cons a rest ih =>
    by_cases ha : key a = some k
    · rw [put, if_pos ha]
      by_cases h : k' = k
      · simp [entry, hnew, h]
      · simp [entry, hnew, ha, h, Ne.symm h]
    · rw [put, if_neg ha]
      by_cases hk : key a = some k'
      · have h : k' ≠ k := fun h => ha (h ▸ hk)
        simp [entry, hk, h]
      · simp only [entry, List.find?_cons, hk, decide_false]
        exact ih

end Keyed
