import Kratix.Lib.Path

/-!
# Trees of regular files

A directory is the list of its entries, each a file with its content or a
directory again. `FileTree.files` lists the regular files below a directory with
their paths relative to it.
-/

namespace GoPath

inductive FileError
  | notExist
  /-- The path leads through a file, or a directory is read as a file. -/
  | notAFile
  deriving DecidableEq, Repr

inductive FileTree (β : Type)
  | nil
  | file (name : String) (content : β) (rest : FileTree β)
  | dir (name : String) (entries rest : FileTree β)
  deriving DecidableEq

namespace FileTree

variable {β : Type}

def names : FileTree β → List String
  | nil => []
  | file name _ rest => name :: rest.names
  | dir name _ rest => name :: rest.names

/-- A file system: entries have plain names, and no two entries of a directory share one. -/
def wellFormed : FileTree β → Bool
  | nil => true
  | file name _ rest => isPlain name && !rest.names.contains name && rest.wellFormed
  | dir name entries rest =>
    isPlain name && !rest.names.contains name && entries.wellFormed && rest.wellFormed

def find (name : String) : FileTree β → Option (β ⊕ FileTree β)
  | nil => none
  | file n content rest => if n = name then some (.inl content) else rest.find name
  | dir n entries rest => if n = name then some (.inr entries) else rest.find name

def readDir (t : FileTree β) : Path → Except FileError (FileTree β)
  | [] => .ok t
  | name :: rest =>
    match t.find name with
    | none => .error .notExist
    | some (.inl _) => .error .notAFile
    | some (.inr entries) => entries.readDir rest

def readFile (t : FileTree β) : Path → Except FileError β
  | [] => .error .notAFile
  | name :: rest =>
    match t.find name, rest with
    | none, _ => .error .notExist
    | some (.inl content), [] => .ok content
    | some (.inl _), _ :: _ => .error .notAFile
    | some (.inr entries), rest => entries.readFile rest

def files : FileTree β → List (Path × β)
  | nil => []
  | file name content rest => ([name], content) :: rest.files
  | dir name entries rest => entries.files.map (fun e => (name :: e.1, e.2)) ++ rest.files

/-! ### The listed files -/

theorem exists_head_of_mem_files {t : FileTree β} {e : Path × β} (he : e ∈ t.files) :
    ∃ name rest, e.1 = name :: rest ∧ name ∈ t.names := by
  induction t with
  | nil => cases he
  | file name content rest ih =>
    rcases List.mem_cons.mp he with rfl | he
    · exact ⟨name, [], rfl, List.mem_cons_self⟩
    · obtain ⟨n, r, heq, hn⟩ := ih he
      exact ⟨n, r, heq, List.mem_cons_of_mem _ hn⟩
  | dir name entries rest _ ih =>
    rcases List.mem_append.mp he with he | he
    · obtain ⟨x, -, rfl⟩ := List.mem_map.mp he
      exact ⟨name, x.1, rfl, List.mem_cons_self⟩
    · obtain ⟨n, r, heq, hn⟩ := ih he
      exact ⟨n, r, heq, List.mem_cons_of_mem _ hn⟩

theorem isPlain_of_mem_files {t : FileTree β} (ht : t.wellFormed = true) {e : Path × β}
    (he : e ∈ t.files) : ∀ part ∈ e.1, isPlain part = true := by
  induction t generalizing e with
  | nil => cases he
  | file name content rest ih =>
    simp only [wellFormed, Bool.and_eq_true] at ht
    rcases List.mem_cons.mp he with rfl | he
    · simpa using ht.1.1
    · exact ih ht.2 he
  | dir name entries rest ihe ih =>
    simp only [wellFormed, Bool.and_eq_true] at ht
    rcases List.mem_append.mp he with he | he
    · obtain ⟨x, hx, rfl⟩ := List.mem_map.mp he
      intro part hpart
      rcases List.mem_cons.mp hpart with rfl | hpart
      · exact ht.1.1.1
      · exact ihe ht.1.2 hx part hpart
    · exact ih ht.2 he

/-- The files below a directory are those whose path begins with its name. -/
theorem filter_files_of_find {t entries : FileTree β} (ht : t.wellFormed = true) {name : String}
    (hfind : t.find name = some (.inr entries)) :
    t.files.filter (fun e => e.1.head? == some name) =
      entries.files.map fun e => (name :: e.1, e.2) := by
  have hrest {rest : FileTree β} (hname : name ∉ rest.names) :
      rest.files.filter (fun e => e.1.head? == some name) = [] := by
    refine List.filter_eq_nil_iff.mpr fun e he => ?_
    obtain ⟨n, r, heq, hn⟩ := exists_head_of_mem_files he
    rw [heq, List.head?_cons, beq_iff_eq, Option.some.injEq]
    rintro rfl
    exact hname hn
  induction t with
  | nil => cases hfind
  | file n content rest ih =>
    simp only [wellFormed, Bool.and_eq_true] at ht
    unfold find at hfind
    split at hfind
    · cases hfind
    · next hne => simpa [files, hne] using ih ht.2 hfind
  | dir n es rest _ ih =>
    simp only [wellFormed, Bool.and_eq_true, Bool.not_eq_true'] at ht
    unfold find at hfind
    rw [files, List.filter_append]
    split at hfind
    · next heq =>
      subst heq
      cases hfind
      have hnotin : n ∉ rest.names := by simpa using ht.1.1.2
      rw [hrest hnotin, List.append_nil, List.filter_eq_self]
      intro e he
      obtain ⟨x, -, rfl⟩ := List.mem_map.mp he
      simp
    · next hne =>
      rw [ih ht.2 hfind, List.filter_eq_nil_iff.mpr, List.nil_append]
      intro e he
      obtain ⟨x, -, rfl⟩ := List.mem_map.mp he
      simp [hne]

theorem mem_files_of_readFile {t : FileTree β} {p : Path} {content : β}
    (h : t.readFile p = .ok content) : (p, content) ∈ t.files := by
  have hfile {t : FileTree β} {name : String} (hfind : t.find name = some (.inl content)) :
      ([name], content) ∈ t.files := by
    induction t with
    | nil => cases hfind
    | file n c rest ih =>
      unfold find at hfind
      split at hfind
      · next heq =>
        subst heq
        cases hfind
        exact List.mem_cons_self
      · exact List.mem_cons_of_mem _ (ih hfind)
    | dir n es rest _ ih =>
      unfold find at hfind
      split at hfind
      · cases hfind
      · exact List.mem_append_right _ (ih hfind)
  have hdir {t entries : FileTree β} {name : String} {q : Path}
      (hfind : t.find name = some (.inr entries)) (hq : (q, content) ∈ entries.files) :
      (name :: q, content) ∈ t.files := by
    induction t with
    | nil => cases hfind
    | file n c rest ih =>
      unfold find at hfind
      split at hfind
      · cases hfind
      · exact List.mem_cons_of_mem _ (ih hfind)
    | dir n es rest _ ih =>
      unfold find at hfind
      split at hfind
      · next heq =>
        subst heq
        cases hfind
        exact List.mem_append_left _ (List.mem_map.mpr ⟨_, hq, rfl⟩)
      · exact List.mem_append_right _ (ih hfind)
  induction p generalizing t with
  | nil => cases h
  | cons name rest ih =>
    unfold readFile at h
    split at h
    · cases h
    · next hfind =>
      cases h
      exact hfile hfind
    · cases h
    · next hfind => exact hdir hfind (ih h)

theorem wellFormed_of_find {t entries : FileTree β} (ht : t.wellFormed = true) {name : String}
    (hfind : t.find name = some (.inr entries)) : entries.wellFormed = true := by
  induction t with
  | nil => cases hfind
  | file n c rest ih =>
    simp only [wellFormed, Bool.and_eq_true] at ht
    unfold find at hfind
    split at hfind
    · cases hfind
    · exact ih ht.2 hfind
  | dir n es rest _ ih =>
    simp only [wellFormed, Bool.and_eq_true] at ht
    unfold find at hfind
    split at hfind
    · cases hfind
      exact ht.1.2
    · exact ih ht.2 hfind

end FileTree

end GoPath
