import Mathlib.Data.List.AList
import Mathlib.Data.List.Sort
import Mathlib.Data.String.Basic
import Mathlib.Tactic

/-!
# Label maps and label selectors

String maps are association lists without repeated keys, read with a default.
A selector is what a list call filters with: a predicate on label maps. The
textual form of a selector is written by `formatLabels`; its parser is a
parameter (`SelectorParser`), known only by what it promises for valid maps.
-/

namespace Apiserver

abbrev StringMap (β : Type) := AList fun _ : String => β

/-- Equality of maps by their entries, in a form that evaluates. -/
instance {β : Type} [DecidableEq β] : DecidableEq (StringMap β) := fun a b =>
  decidable_of_iff (a.entries = b.entries) AList.ext_iff.symm

abbrev Labels := StringMap String

namespace Labels

/-- Reading a missing key yields the empty string. -/
def value (l : Labels) (key : String) : String := (l.lookup key).getD ""

def ofList (l : List (String × String)) : Labels :=
  l.foldr (fun e m => m.insert e.1 e.2) ∅

/-- `merge a b` holds the entries of both maps; `b` wins where they disagree. -/
def merge (a b : Labels) : Labels := b ∪ a

theorem lookup_merge (a b : Labels) (key : String) :
    (merge a b).lookup key = (b.lookup key).or (a.lookup key) := by
  unfold merge
  cases hb : b.lookup key with
  | none => rw [AList.lookup_union_right (AList.lookup_eq_none.mp hb)]; rfl
  | some v =>
    have hm : key ∈ b := AList.lookup_isSome.mp (by rw [hb]; rfl)
    rw [AList.lookup_union_left hm, hb]
    rfl

theorem lookup_insert (l : Labels) (key key' v : String) :
    (l.insert key v).lookup key' = if key' = key then some v else l.lookup key' := by
  split_ifs with h
  · rw [h, AList.lookup_insert]
  · rw [AList.lookup_insert_ne h]

@[simp] theorem lookup_ofList_nil (key : String) : (ofList []).lookup key = none :=
  AList.lookup_empty key

@[simp] theorem lookup_ofList_cons (e : String × String) (l : List (String × String))
    (key : String) :
    (ofList (e :: l)).lookup key = if key = e.1 then some e.2 else (ofList l).lookup key :=
  lookup_insert _ _ _ _

theorem lookup_ofList_of_notMem {l : List (String × String)} {key : String}
    (h : key ∉ l.map Prod.fst) : (ofList l).lookup key = none := by
  induction l with
  | nil => rfl
  | cons e rest ih =>
    simp only [List.map_cons, List.mem_cons, not_or] at h
    rw [lookup_ofList_cons, if_neg h.1, ih h.2]

end Labels

/-- What a list call filters with. -/
abbrev Selector := Labels → Bool

namespace Selector

def everything : Selector := fun _ => true

/-- Every entry of the set is required of the labels, with exactly its value. -/
def fromSet (set : Labels) : Selector :=
  fun l => set.entries.all fun e => l.lookup e.1 == some e.2

theorem fromSet_iff {set l : Labels} :
    fromSet set l = true ↔ ∀ key v, set.lookup key = some v → l.lookup key = some v := by
  simp only [fromSet, List.all_eq_true, beq_iff_eq]
  constructor
  · intro h key v hv
    exact h ⟨key, v⟩ (AList.mem_lookup_iff.mp hv)
  · intro h e he
    exact h e.1 e.2 (AList.mem_lookup_iff.mpr he)

theorem fromSet_ofList_iff {l : List (String × String)} (hl : (l.map Prod.fst).Nodup)
    {labels : Labels} : fromSet (Labels.ofList l) labels = true ↔
      ∀ e ∈ l, labels.lookup e.1 = some e.2 := by
  rw [fromSet_iff]
  induction l with
  | nil => simp
  | cons e rest ih =>
    obtain ⟨he, hrest⟩ := List.nodup_cons.mp hl
    rw [List.forall_mem_cons, ← ih hrest]
    simp only [Labels.lookup_ofList_cons]
    constructor
    · intro h
      refine ⟨h e.1 e.2 (if_pos rfl), fun key v hv => h key v ?_⟩
      rw [if_neg, hv]
      rintro rfl
      rw [Labels.lookup_ofList_of_notMem he] at hv
      cases hv
    · rintro ⟨hfirst, h⟩ key v hv
      by_cases hkey : key = e.1
      · rw [if_pos hkey] at hv
        rw [hkey, hfirst, hv]
      · rw [if_neg hkey] at hv
        exact h key v hv

end Selector

end Apiserver
