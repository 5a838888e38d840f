import Mathlib.Data.List.AList
import Mathlib.Tactic

/-!
# Encodings into bytes

An encoding with a decoder that reads one value and returns what follows it.
Numbers are written in unary; lists are preceded by their length.
-/

structure Codec (α : Type) where
  put : α → List UInt8
  get : List UInt8 → Option (α × List UInt8)
  get_put : ∀ a rest, get (put a ++ rest) = some (a, rest)

namespace Codec

variable {α β : Type}

def getNat : List UInt8 → Option (ℕ × List UInt8)
  | [] => none
  | b :: bs => if b = 0 then some (0, bs) else (getNat bs).map fun r => (r.1 + 1, r.2)

theorem getNat_replicate (n : ℕ) (rest : List UInt8) :
    getNat (List.replicate n 1 ++ 0 :: rest) = some (n, rest) := by
  induction n with
  | zero => rfl
  | succ n ih =>
    rw [List.replicate_succ, List.cons_append, getNat, if_neg (by decide), ih]
    rfl

def nat : Codec ℕ where
  put n := List.replicate n 1 ++ [0]
  get := getNat
  get_put n rest := by rw [List.append_assoc]; exact getNat_replicate n rest

/-- Read as many values as the first argument says. -/
def getMany (c : Codec α) : ℕ → List UInt8 → Option (List α × List UInt8)
  | 0, bs => some ([], bs)
  | n + 1, bs => do
    let (a, bs) ← c.get bs
    let (l, bs) ← getMany c n bs
    return (a :: l, bs)

theorem getMany_flatMap (c : Codec α) (l : List α) (rest : List UInt8) :
    c.getMany l.length (l.flatMap c.put ++ rest) = some (l, rest) := by
  induction l with
  | nil => rfl
  | cons a l ih =>
    simp only [List.length_cons, getMany, List.flatMap_cons, List.append_assoc, c.get_put, ih,
      Option.bind_eq_bind, Option.bind_some, Option.pure_def]

def list (c : Codec α) : Codec (List α) where
  put l := nat.put l.length ++ l.flatMap c.put
  get bs := (nat.get bs).bind fun r => c.getMany r.1 r.2
  get_put l rest := by
    rw [List.append_assoc, nat.get_put, Option.bind_some, getMany_flatMap]

def prod (c : Codec α) (d : Codec β) : Codec (α × β) where
  put x := c.put x.1 ++ d.put x.2
  get bs := (c.get bs).bind fun r => (d.get r.2).map fun q => ((r.1, q.1), q.2)
  get_put x rest := by
    rw [List.append_assoc, c.get_put, Option.bind_some, d.get_put]
    rfl

/-- Encode through another type. -/
def via (c : Codec α) (f : β → α) (g : α → Option β) (hg : ∀ b, g (f b) = some b) : Codec β where
  put b := c.put (f b)
  get bs := (c.get bs).bind fun r => (g r.1).map fun b => (b, r.2)
  get_put b rest := by
    rw [c.get_put, Option.bind_some, hg]
    rfl

def string : Codec String :=
  nat.list.via (fun s => s.toList.map Char.toNat) (fun l => some (String.ofList (l.map Char.ofNat)))
    fun s => by simp [Function.comp_def]

/-- A map from its entries, when no key is repeated. -/
def ofEntries (l : List (String × String)) : Option (AList fun _ : String => String) :=
  if h : (l.map fun e => (⟨e.1, e.2⟩ : Sigma fun _ : String => String)).keys.Nodup then
    some ⟨_, h⟩
  else none

theorem ofEntries_entries (m : AList fun _ : String => String) :
    ofEntries (m.entries.map fun e => (e.1, e.2)) = some m := by
  have hm : (m.entries.map fun e => (e.1, e.2)).map
      (fun e => (⟨e.1, e.2⟩ : Sigma fun _ : String => String)) = m.entries := by
    simp [Function.comp_def]
  unfold ofEntries
  split
  · exact congrArg some (AList.ext hm)
  · next h => exact absurd (by rw [hm]; exact m.nodupKeys) h

def stringMap : Codec (AList fun _ : String => String) :=
  (string.prod string).list.via (fun m => m.entries.map fun e => (e.1, e.2)) ofEntries
    ofEntries_entries

/-- The value that a sequence of bytes begins with. -/
def decode (c : Codec α) (bs : List UInt8) : Option α := (c.get bs).map Prod.fst

theorem decode_put (c : Codec α) (a : α) : c.decode (c.put a) = some a := by
  have h := c.get_put a []
  rw [List.append_nil] at h
  rw [decode, h]
  rfl

end Codec
