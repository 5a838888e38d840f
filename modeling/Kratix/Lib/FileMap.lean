import Kratix.Lib.Path
import Mathlib.Data.List.AList

/-!
# File maps

The content of a store of files: finitely many paths, each with one content.
-/

namespace GoPath

abbrev FileMap (β : Type) := AList fun _ : Path => β

/-- The text of `p` is a prefix of the text of `q`. -/
def textPrefix : Path → Path → Bool
  | [], _ => true
  | _ :: _, [] => false
  | [a], b :: _ => a.toList.isPrefixOf b.toList
  | a :: ps, b :: qs => a == b && textPrefix ps qs

theorem textPrefix_append (p q : Path) : textPrefix p (p ++ q) = true := by
  induction p with
  | nil => simp [textPrefix]
  | cons a p ih => cases p <;> simp_all [textPrefix]

namespace FileMap

variable {β : Type}

/-- The files whose path satisfies `keep`. -/
def restrict (keep : Path → Bool) (files : FileMap β) : FileMap β where
  entries := files.entries.filter fun e => keep e.1
  nodupKeys := files.nodupKeys.sublist List.filter_sublist

theorem lookup_restrict (keep : Path → Bool) (files : FileMap β) (q : Path) :
    (files.restrict keep).lookup q = if keep q then files.lookup q else none := by
  apply Option.ext
  intro b
  have hmem : b ∈ (files.restrict keep).lookup q ↔ keep q = true ∧ b ∈ files.lookup q := by
    rw [AList.mem_lookup_iff, AList.mem_lookup_iff]
    simp [restrict, and_comm]
  split_ifs with hk
  · simpa [hk] using hmem
  · simpa [hk] using hmem

/-- Both maps hold the same files with the same content. -/
def same [DecidableEq β] (f g : FileMap β) : Bool :=
  (f.entries.all fun e => g.lookup e.1 == some e.2) &&
    g.entries.all fun e => f.lookup e.1 == some e.2

theorem same_iff [DecidableEq β] {f g : FileMap β} :
    f.same g = true ↔ ∀ q, f.lookup q = g.lookup q := by
  simp only [same, Bool.and_eq_true, List.all_eq_true, beq_iff_eq]
  constructor
  · rintro ⟨hf, hg⟩ q
    apply Option.ext
    intro b
    constructor
    · exact fun hb => hf ⟨q, b⟩ (AList.mem_lookup_iff.mp hb)
    · exact fun hb => hg ⟨q, b⟩ (AList.mem_lookup_iff.mp hb)
  · intro h
    constructor
    · exact fun e he => (h e.1).symm.trans (AList.mem_lookup_iff.mpr he)
    · exact fun e he => (h e.1).trans (AList.mem_lookup_iff.mpr he)

/-- No file can be written at the path: a parent directory is a file, or the
path itself is a directory. -/
def blocked (files : FileMap β) (p : Path) : Bool :=
  files.entries.any fun e => e.1 != p && (e.1.isPrefixOf p || p.isPrefixOf e.1)

end FileMap

end GoPath
