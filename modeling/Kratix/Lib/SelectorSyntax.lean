import Kratix.Lib.Labels

/-!
# The textual form of equality selectors

`formatLabels` writes a map as `k=v` items, sorted and joined with commas, and
a selector parser reads such text back. The parser belongs to the client
library, so it is a parameter here: all that is assumed is that the text of a
valid map is read back as the selector of that map. `equalityParser` is one
parser with this property; it accepts exactly the lists of valid items.
-/

namespace Apiserver

/-! ### Valid keys and values -/

def isLabelChar (c : Char) : Bool :=
  c.isAlphanum || c == '-' || c == '_' || c == '.'

/-- Begins and ends with an alphanumeric character and has at most 63 label characters. -/
def isQualifiedNamePart (cs : List Char) : Bool :=
  decide (cs.length ≤ 63) && (cs.head?.any Char.isAlphanum) && (cs.getLast?.any Char.isAlphanum) &&
    cs.all isLabelChar

/-- One dot-separated part of a DNS subdomain. -/
def isDnsLabel (cs : List Char) : Bool :=
  (cs.head?.any Char.isAlphanum) && (cs.getLast?.any Char.isAlphanum) &&
    cs.all fun c => c.isLower || c.isDigit || c == '-'

def isDnsSubdomain (cs : List Char) : Bool :=
  decide (cs.length ≤ 253) && (cs.splitOn '.').all isDnsLabel

/-- A name, or a DNS subdomain and a name separated by a slash. -/
def isValidLabelKey (key : String) : Bool :=
  match key.toList.splitOn '/' with
  | [name] => isQualifiedNamePart name
  | [domain, name] => isDnsSubdomain domain && isQualifiedNamePart name
  | _ => false

def isValidLabelValue (v : String) : Bool :=
  v.toList.isEmpty || isQualifiedNamePart v.toList

/-- Every key and every value has the form the server accepts for labels. -/
def Labels.Valid (l : Labels) : Prop :=
  ∀ e ∈ l.entries, isValidLabelKey e.1 = true ∧ isValidLabelValue e.2 = true

instance (l : Labels) : Decidable l.Valid :=
  inferInstanceAs (Decidable (∀ e ∈ l.entries, _ ∧ _))

theorem Labels.valid_empty : Labels.Valid ∅ := fun _ he => by cases he

theorem Labels.valid_iff {l : Labels} : l.Valid ↔ ∀ key v, l.lookup key = some v →
    isValidLabelKey key = true ∧ isValidLabelValue v = true :=
  ⟨fun h key v hv => h ⟨key, v⟩ (AList.mem_lookup_iff.mp hv),
    fun h e he => h e.1 e.2 (AList.mem_lookup_iff.mpr he)⟩

theorem isLabelChar_ne_comma {c : Char} (h : isLabelChar c = true) : c ≠ ',' := by
  rintro rfl
  revert h
  decide

theorem isLabelChar_ne_equals {c : Char} (h : isLabelChar c = true) : c ≠ '=' := by
  rintro rfl
  revert h
  decide

theorem isLabelChar_of_mem_part {cs : List Char} (h : isQualifiedNamePart cs = true) {c : Char}
    (hc : c ∈ cs) : isLabelChar c = true := by
  simp only [isQualifiedNamePart, Bool.and_eq_true, List.all_eq_true] at h
  exact h.2 c hc

theorem mem_intercalate_singleton {α : Type} {x c : α} {ls : List (List α)}
    (h : c ∈ [x].intercalate ls) : c = x ∨ ∃ l ∈ ls, c ∈ l := by
  induction ls with
  | nil => simp at h
  | cons l ls ih =>
    cases ls with
    | nil => exact Or.inr ⟨l, by simp, by simpa using h⟩
    | cons l' ls =>
      simp only [List.intercalate, List.intersperse_cons_cons, List.flatten_cons, List.mem_append,
        List.mem_singleton] at h ih
      rcases h with h | h | h
      · exact Or.inr ⟨l, by simp, h⟩
      · exact Or.inl h
      · rcases ih h with h | ⟨m, hm, hc⟩
        · exact Or.inl h
        · exact Or.inr ⟨m, List.mem_cons_of_mem _ hm, hc⟩

theorem isAlphanum_eq (c : Char) : c.isAlphanum = (c.isUpper || c.isLower || c.isDigit) := rfl

theorem isLabelChar_of_mem_subdomain {cs : List Char} (h : isDnsSubdomain cs = true) {c : Char}
    (hc : c ∈ cs) : isLabelChar c = true := by
  simp only [isDnsSubdomain, isDnsLabel, Bool.and_eq_true, List.all_eq_true] at h
  rw [← @List.intercalate_splitOn _ cs _ _ '.'] at hc
  rcases mem_intercalate_singleton hc with rfl | ⟨part, hpart, hmem⟩
  · decide
  · have hp := (h.2 part hpart).2 c hmem
    simp only [isLabelChar, isAlphanum_eq] at hp ⊢
    grind

theorem isLabelChar_or_slash_of_mem_key {key : String} (h : isValidLabelKey key = true) {c : Char}
    (hc : c ∈ key.toList) : isLabelChar c = true ∨ c = '/' := by
  unfold isValidLabelKey at h
  rw [← @List.intercalate_splitOn _ key.toList _ _ '/'] at hc
  split at h
  · next name heq =>
    rw [heq] at hc
    exact Or.inl (isLabelChar_of_mem_part h (by simpa using hc))
  · next domain name heq =>
    rw [heq] at hc
    simp only [Bool.and_eq_true] at h
    rcases mem_intercalate_singleton hc with rfl | ⟨part, hpart, hmem⟩
    · exact Or.inr rfl
    · rcases List.mem_cons.mp hpart with rfl | hpart
      · exact Or.inl (isLabelChar_of_mem_subdomain h.1 hmem)
      · rw [List.mem_singleton.mp hpart] at hmem
        exact Or.inl (isLabelChar_of_mem_part h.2 hmem)
  · cases h

theorem isLabelChar_of_mem_value {v : String} (h : isValidLabelValue v = true) {c : Char}
    (hc : c ∈ v.toList) : isLabelChar c = true := by
  simp only [isValidLabelValue, Bool.or_eq_true, List.isEmpty_iff] at h
  rcases h with h | h
  · simp [h] at hc
  · exact isLabelChar_of_mem_part h hc

/-! ### Writing and reading -/

def formatItem (e : String × String) : String := e.1 ++ "=" ++ e.2

/-- The items of the map in the order of their texts. -/
def sortedItems (l : Labels) : List (String × String) :=
  (l.entries.map fun e => (e.1, e.2)).insertionSort fun a b => formatItem a ≤ formatItem b

/-- The items joined with commas; `<none>` stands for the empty text. -/
def formatLabels (l : Labels) : String :=
  let text := ",".intercalate ((sortedItems l).map formatItem)
  if text = "" then "<none>" else text

/-- The selector parser of the client library, with what it documents for
valid label maps. -/
structure SelectorParser where
  parse : String → Option Selector
  parse_formatLabels : ∀ l : Labels, l ≠ ∅ → l.Valid →
    parse (formatLabels l) = some (Selector.fromSet l)

theorem mem_sortedItems {l : Labels} {e : String × String} :
    e ∈ sortedItems l ↔ l.lookup e.1 = some e.2 := by
  have hperm := (List.perm_insertionSort (fun a b => formatItem a ≤ formatItem b)
    (l.entries.map fun e => (e.1, e.2)))
  rw [sortedItems, hperm.mem_iff, List.mem_map]
  constructor
  · rintro ⟨e, he, rfl⟩
    exact AList.mem_lookup_iff.mpr he
  · exact fun h => ⟨⟨e.1, e.2⟩, AList.mem_lookup_iff.mp h, rfl⟩

theorem nodup_keys_sortedItems (l : Labels) : ((sortedItems l).map Prod.fst).Nodup := by
  have hperm := (List.perm_insertionSort (fun a b => formatItem a ≤ formatItem b)
    (l.entries.map fun e => (e.1, e.2))).map Prod.fst
  have hkeys := l.nodupKeys
  rw [List.NodupKeys, List.keys] at hkeys
  refine hperm.nodup_iff.mpr ?_
  rw [List.map_map]
  exact hkeys

theorem lookup_ofList {items : List (String × String)} (hn : (items.map Prod.fst).Nodup)
    (key v : String) : (Labels.ofList items).lookup key = some v ↔ (key, v) ∈ items := by
  induction items with
  | nil => simp
  | cons e items ih =>
    rw [List.map_cons, List.nodup_cons] at hn
    rw [Labels.lookup_ofList_cons, List.mem_cons]
    split_ifs with hk
    · have hnot : (key, v) ∉ items :=
        fun hm => hn.1 (List.mem_map.mpr ⟨(key, v), hm, hk⟩)
      constructor
      · intro hv
        exact Or.inl (Prod.ext hk (Option.some.inj hv).symm)
      · rintro (he | hm)
        · rw [← he]
        · exact absurd hm hnot
    · rw [ih hn.2]
      constructor
      · exact Or.inr
      · rintro (rfl | hm)
        · exact absurd rfl hk
        · exact hm

theorem fromSet_ofList_sortedItems (l : Labels) :
    Selector.fromSet (Labels.ofList (sortedItems l)) = Selector.fromSet l := by
  have hlookup : ∀ key v, (Labels.ofList (sortedItems l)).lookup key = some v ↔
      l.lookup key = some v := by
    intro key v
    rw [lookup_ofList (nodup_keys_sortedItems l), mem_sortedItems]
  funext m
  rw [Bool.eq_iff_iff, Selector.fromSet_iff, Selector.fromSet_iff]
  simp only [hlookup]

/-- One `k=v` item with a valid key and a valid value. -/
def parseItem (cs : List Char) : Option (String × String) :=
  match cs.splitOn '=' with
  | [key, v] =>
    if isValidLabelKey (String.ofList key) && isValidLabelValue (String.ofList v) then
      some (String.ofList key, String.ofList v)
    else none
  | _ => none

theorem parseItem_formatItem {e : String × String} (hk : isValidLabelKey e.1 = true)
    (hv : isValidLabelValue e.2 = true) : parseItem (formatItem e).toList = some e := by
  have hkey : '=' ∉ e.1.toList := by
    intro hc
    rcases isLabelChar_or_slash_of_mem_key hk hc with h | h
    · exact isLabelChar_ne_equals h rfl
    · exact absurd h (by decide)
  have hval : '=' ∉ e.2.toList := fun hc =>
    isLabelChar_ne_equals (isLabelChar_of_mem_value hv hc) rfl
  have htext : (formatItem e).toList = ['='].intercalate [e.1.toList, e.2.toList] := by
    simp [formatItem, List.intercalate]
  have hsplit : (formatItem e).toList.splitOn '=' = [e.1.toList, e.2.toList] := by
    rw [htext, List.splitOn_intercalate '=' _ (by simp)]
    simp only [List.mem_cons, List.not_mem_nil, or_false, forall_eq_or_imp, forall_eq]
    exact ⟨hkey, hval⟩
  simp [parseItem, hsplit, hk, hv]

theorem comma_notMem_formatItem {e : String × String} (hk : isValidLabelKey e.1 = true)
    (hv : isValidLabelValue e.2 = true) : ',' ∉ (formatItem e).toList := by
  simp only [formatItem, String.toList_append, List.mem_append, not_or]
  refine ⟨⟨fun hc => ?_, by decide⟩, fun hc => ?_⟩
  · rcases isLabelChar_or_slash_of_mem_key hk hc with h | h
    · exact isLabelChar_ne_comma h rfl
    · exact absurd h (by decide)
  · exact isLabelChar_ne_comma (isLabelChar_of_mem_value hv hc) rfl

/-- All items of a comma-separated list, if each of them is valid. -/
def parseItems : List (List Char) → Option (List (String × String))
  | [] => some []
  | cs :: rest =>
    match parseItem cs, parseItems rest with
    | some e, some es => some (e :: es)
    | _, _ => none

theorem parseItems_formatItem {items : List (String × String)}
    (h : ∀ e ∈ items, isValidLabelKey e.1 = true ∧ isValidLabelValue e.2 = true) :
    parseItems (items.map fun e => (formatItem e).toList) = some items := by
  induction items with
  | nil => rfl
  | cons e items ih =>
    have he := h e (by simp)
    simp only [List.map_cons, parseItems, parseItem_formatItem he.1 he.2,
      ih fun e' he' => h e' (by simp [he'])]

def equalityParse (text : String) : Option Selector :=
  (parseItems (text.toList.splitOn ',')).map fun items => Selector.fromSet (Labels.ofList items)

theorem equalityParse_formatLabels (l : Labels) (hne : l ≠ ∅) (hl : l.Valid) :
    equalityParse (formatLabels l) = some (Selector.fromSet l) := by
  have hvalid : ∀ e ∈ sortedItems l, isValidLabelKey e.1 = true ∧ isValidLabelValue e.2 = true :=
    fun e he => hl ⟨e.1, e.2⟩ (AList.mem_lookup_iff.mp (mem_sortedItems.mp he))
  have hitems : sortedItems l ≠ [] := by
    intro h
    apply hne
    apply AList.ext
    have hlen := congrArg List.length h
    simpa [sortedItems, List.length_insertionSort] using hlen
  have hchars : (",".intercalate ((sortedItems l).map formatItem)).toList =
      [','].intercalate ((sortedItems l).map fun e => (formatItem e).toList) := by
    rw [String.toList_intercalate, List.map_map]
    rfl
  have htext : formatLabels l = ",".intercalate ((sortedItems l).map formatItem) := by
    unfold formatLabels
    apply if_neg
    intro h
    -- an item always holds its equals sign, so the text is not empty
    obtain ⟨e, rest, he⟩ := List.exists_cons_of_ne_nil hitems
    have h' := congrArg String.toList h
    rw [hchars, he] at h'
    cases rest <;> simp [formatItem, List.intercalate] at h'
  have hsplit : (formatLabels l).toList.splitOn ',' =
      (sortedItems l).map fun e => (formatItem e).toList := by
    rw [htext, hchars]
    apply List.splitOn_intercalate
    · intro cs hcs
      obtain ⟨e, he, rfl⟩ := List.mem_map.mp hcs
      exact comma_notMem_formatItem (hvalid e he).1 (hvalid e he).2
    · simpa using hitems
  rw [equalityParse, hsplit, parseItems_formatItem hvalid, Option.map_some,
    fromSet_ofList_sortedItems]

/-- A parser of lists of valid equality items. -/
def equalityParser : SelectorParser where
  parse := equalityParse
  parse_formatLabels := equalityParse_formatLabels

end Apiserver
