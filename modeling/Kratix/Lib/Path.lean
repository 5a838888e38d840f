import Mathlib.Tactic

/-!
# Slash-separated paths

A path is the list of its parts between slashes, so a path text and its list
determine each other. A leading empty part makes the path rooted; the empty
list is the empty path and, once cleaned, the current directory.
-/

namespace GoPath

abbrev Path := List String

/-- A part that names an entry of a directory. -/
def isPlain (part : String) : Bool := part != "" && part != "." && part != ".."

/-- One more part, given the parts so far with the last one first. -/
def pushPart (rooted : Bool) (stack : List String) (part : String) : List String :=
  if part = "" || part = "." then stack
  else if part = ".." then
    match stack with
    | [] => if rooted then [] else [".."]
    | top :: rest => if top = ".." then ".." :: top :: rest else rest
  else part :: stack

def normalize (rooted : Bool) (parts : List String) : List String :=
  (parts.foldl (pushPart rooted) []).reverse

/-- The shortest equivalent path, by reading the parts from left to right. -/
def clean : Path → Path
  | "" :: rest => "" :: normalize true rest
  | parts => normalize false parts

/-- The elements one after another, cleaned; empty elements do not count. -/
def join (elems : List Path) : Path := clean elems.flatten

/-- The last part of a cleaned path. -/
def base (p : Path) : Path :=
  match p.getLast? with
  | none => []
  | some part => [part]

/-- The text of a cleaned path. -/
def text : Path → String
  | [] => "."
  | [""] => "/"
  | parts => "/".intercalate parts

/-- A cleaned path below a cleaned base, relative to it. -/
def rel : Path → Path → Path
  | b :: bs, t :: ts => if b = t then rel bs ts else (b :: bs).map (fun _ => "..") ++ t :: ts
  | bs, ts => bs.map (fun _ => "..") ++ ts

theorem pushPart_plain {rooted : Bool} {stack : List String} {part : String}
    (h : isPlain part = true) : pushPart rooted stack part = part :: stack := by
  simp only [isPlain, Bool.and_eq_true, bne_iff_ne] at h
  simp [pushPart, h.1.1, h.1.2, h.2]

theorem foldl_pushPart_plain {rooted : Bool} {parts stack : List String}
    (h : ∀ part ∈ parts, isPlain part = true) :
    parts.foldl (pushPart rooted) stack = parts.reverse ++ stack := by
  induction parts generalizing stack with
  | nil => rfl
  | cons part parts ih =>
    rw [List.foldl_cons, pushPart_plain (h part (by simp)), ih fun p hp => h p (by simp [hp])]
    simp

theorem normalize_append_plain {rooted : Bool} (p : List String) {q : List String}
    (h : ∀ part ∈ q, isPlain part = true) : normalize rooted (p ++ q) = normalize rooted p ++ q := by
  rw [normalize, List.foldl_append, foldl_pushPart_plain h, List.reverse_append,
    List.reverse_reverse, normalize]

theorem normalize_plain {rooted : Bool} {q : List String} (h : ∀ part ∈ q, isPlain part = true) :
    normalize rooted q = q := by
  simpa [normalize] using @normalize_append_plain rooted [] q h

theorem clean_of_head {p : Path} (h : p.head? ≠ some "") : clean p = normalize false p := by
  unfold clean
  split
  · simp at h
  · rfl

theorem clean_plain {q : Path} (h : ∀ part ∈ q, isPlain part = true) : clean q = q := by
  rw [clean_of_head, normalize_plain h]
  cases q with
  | nil => simp
  | cons part q =>
    have := h part (by simp)
    simp only [isPlain, Bool.and_eq_true, bne_iff_ne] at this
    simpa using this.1.1

theorem clean_append_plain (p : Path) {q : Path} (h : ∀ part ∈ q, isPlain part = true) :
    clean (p ++ q) = clean p ++ q := by
  cases p with
  | nil => simpa [clean_plain h] using (show clean [] = [] from rfl)
  | cons part p =>
    by_cases hp : part = ""
    · subst hp
      simp only [List.cons_append, clean, normalize_append_plain p h]
    · rw [clean_of_head (by simpa using hp), clean_of_head (by simpa using hp),
        normalize_append_plain _ h]

/-- Plain parts, above parts that lead upwards. -/
theorem foldl_pushPart_shape {parts stack : List String} {k : ℕ} {above : List String}
    (hstack : stack = above ++ List.replicate k "..")
    (habove : ∀ part ∈ above, isPlain part = true) :
    ∃ k' above', parts.foldl (pushPart false) stack = above' ++ List.replicate k' ".." ∧
      ∀ part ∈ above', isPlain part = true := by
  induction parts generalizing stack k above with
  | nil => exact ⟨k, above, hstack, habove⟩
  | cons part parts ih =>
    rw [List.foldl_cons]
    by_cases hplain : isPlain part = true
    · rw [pushPart_plain hplain]
      exact @ih _ k (part :: above) (by rw [hstack]; rfl) (by simpa [hplain] using habove)
    · rw [pushPart.eq_def]
      by_cases hsame : (part = "" || part = ".") = true
      · rw [if_pos hsame]
        exact ih hstack habove
      · obtain rfl : part = ".." := by
          simp only [Bool.or_eq_true, decide_eq_true_eq, not_or] at hsame
          simpa [isPlain, hsame] using hplain
        rw [if_neg hsame, if_pos rfl]
        cases above with
        | nil =>
          subst hstack
          cases k with
          | zero => exact @ih _ 1 [] rfl habove
          | succ k => exact @ih _ (k + 2) [] rfl habove
        | cons top above =>
          have htop : top ≠ ".." := by
            rintro rfl
            exact absurd (habove ".." (by simp)) (by decide)
          subst hstack
          simp only [List.cons_append, if_neg htop]
          exact ih rfl fun part hpart => habove part (by simp [hpart])

theorem isPlain_of_mem_normalize {parts : List String}
    (hup : (normalize false parts).head? ≠ some "..") :
    ∀ part ∈ normalize false parts, isPlain part = true := by
  obtain ⟨k, above, hshape, habove⟩ :=
    @foldl_pushPart_shape parts [] 0 [] rfl fun part hpart => by cases hpart
  have heq : normalize false parts = List.replicate k ".." ++ above.reverse := by
    rw [normalize, hshape, List.reverse_append, List.reverse_replicate]
  rw [heq] at hup ⊢
  cases k with
  | zero => simpa using habove
  | succ k => simp [List.replicate_succ] at hup

/-- A cleaned path that neither leads upwards nor is rooted has plain parts only. -/
theorem isPlain_of_mem_clean {p : Path} (hup : (clean p).head? ≠ some "..")
    (hroot : (clean p).head? ≠ some "") : ∀ part ∈ clean p, isPlain part = true := by
  have hclean : clean p = normalize false p := by
    apply clean_of_head
    intro hp
    cases p with
    | nil => cases hp
    | cons part p =>
      obtain rfl : part = "" := by simpa using hp
      exact hroot rfl
  rw [hclean] at hup ⊢
  exact isPlain_of_mem_normalize hup

end GoPath
