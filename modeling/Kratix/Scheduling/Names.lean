import Kratix.Scheduling.Scheduler

/-!
# Generated names

A generated name is a shortened name, a dash and five characters of a UUID or of
a hash. Names of Works are used as label values; a query whose labels cannot be
parsed selects a whole namespace, so generated names have to be valid ones.
-/

namespace Kratix

open Apiserver

/-! ### The loop

The source indexes and slices texts, which panics outside of their bounds. Here a
panic is `none`. -/

/-- The loop over a name, whose characters are given from the last to the first:
it panics when no alphanumeric character is left. -/
def dropTrailing : List Char → Option (List Char)
  | [] => none
  | c :: cs => if c.isAlphanum then some (c :: cs) else dropTrailing cs

def runProcessName (name : String) : Option String :=
  let cs := name.toList
  let cs := if maxNameLength < cs.length then cs.take (maxNameLength - 1) else cs
  (dropTrailing cs.reverse).map fun cs => String.ofList cs.reverse

/-- The slice `id[0:5]`. -/
def firstFive (id : String) : Option String :=
  if 5 ≤ id.length then some (String.ofList (id.toList.take 5)) else none

def runGenerateObjectName (name uuid : String) : Option String := do
  let name ← runProcessName name
  let id ← firstFive uuid
  return name ++ "-" ++ id

def runGenerateDeterministicObjectName (env : Externals) (name : String) : Option String := do
  let id := env.computeHash name
  let name ← runProcessName name
  let id ← firstFive id
  return name ++ "-" ++ id

theorem dropTrailing_eq {cs : List Char} (h : ∃ c ∈ cs, c.isAlphanum = true) :
    dropTrailing cs = some (cs.dropWhile fun c => !c.isAlphanum) := by
  induction cs with
  | nil => simp at h
  | cons c cs ih =>
    by_cases hc : c.isAlphanum = true
    · simp [dropTrailing, hc]
    · have hrest : ∃ c ∈ cs, c.isAlphanum = true := by simpa [hc] using h
      simp [dropTrailing, hc, ih hrest]

section

variable {base : String} (hhead : base.toList.head?.any Char.isAlphanum = true)

include hhead

theorem exists_cons_of_head : ∃ c cs, base.toList = c :: cs ∧ c.isAlphanum = true := by
  cases hbase : base.toList with
  | nil => simp [hbase] at hhead
  | cons c cs => exact ⟨c, cs, rfl, by simpa [hbase] using hhead⟩

/-- The first character is never cut off, so the loop ends there at the latest. -/
theorem runProcessName_eq : runProcessName base = some (processName base) := by
  obtain ⟨c, cs, hbase, hc⟩ := exists_cons_of_head hhead
  simp only [runProcessName, processName]
  rw [dropTrailing_eq]
  · rfl
  · refine ⟨c, ?_, hc⟩
    rw [List.mem_reverse, hbase]
    split <;> simp [maxNameLength]

theorem runGenerateObjectName_eq {uuid : String} (hlen : 5 ≤ uuid.length) :
    runGenerateObjectName base uuid = some (generateObjectName base uuid) := by
  simp [runGenerateObjectName, runProcessName_eq hhead, firstFive, hlen, generateObjectName,
    shortUUID]

theorem runGenerateDeterministicObjectName_eq (env : Externals) :
    runGenerateDeterministicObjectName env base =
      some (generateDeterministicObjectName env base) := by
  have hlen : 5 ≤ (env.computeHash base).length := by
    rw [← String.length_toList, env.computeHash_length]
    omega
  simp [runGenerateDeterministicObjectName, runProcessName_eq hhead, firstFive, hlen,
    generateDeterministicObjectName]

end

/-! ### The shortened name -/

theorem processName_spec {base : String}
    (hhead : ∃ c cs, base.toList = c :: cs ∧ c.isAlphanum = true) :
    (∃ c cs, (processName base).toList = c :: cs ∧ c.isAlphanum = true) ∧
      (processName base).toList.length ≤ 57 ∧ (processName base).toList <+: base.toList := by
  obtain ⟨c, cs, hbase, hc⟩ := hhead
  simp only [processName, String.toList_ofList, show maxNameLength = 57 from rfl]
  generalize hcut : (if 57 < base.toList.length then base.toList.take (57 - 1)
    else base.toList) = cut
  have hcutlen : cut.length ≤ 57 := by
    subst hcut
    split
    · rw [List.length_take]
      omega
    · next h => exact not_lt.mp h
  have hcutpre : cut <+: base.toList := by
    subst hcut
    split
    · exact List.take_prefix _ _
    · exact List.prefix_refl _
  have hcuthead : ∃ rest, cut = c :: rest := by
    subst hcut
    rw [hbase]
    split <;> exact ⟨_, rfl⟩
  obtain ⟨rest, rfl⟩ := hcuthead
  have hpre : (c :: rest).rdropWhile (fun c => !c.isAlphanum) <+: c :: rest :=
    List.rdropWhile_prefix _ _
  refine ⟨?_, hpre.length_le.trans hcutlen, hpre.trans hcutpre⟩
  -- the first character is kept, because it is alphanumeric itself
  cases hdrop : (c :: rest).rdropWhile (fun c => !c.isAlphanum) with
  | nil =>
    rw [List.rdropWhile_eq_nil_iff] at hdrop
    simpa [hc] using hdrop c (by simp)
  | cons d ds =>
    rw [hdrop] at hpre
    obtain ⟨tail, htail⟩ := hpre
    cases htail
    exact ⟨c, ds, rfl, hc⟩

theorem isLabelChar_of_isAlphanum {c : Char} (hc : c.isAlphanum = true) : isLabelChar c = true := by
  simp [isLabelChar, hc]

/-- A shortened name with a dash and five alphanumeric characters. -/
theorem isQualifiedNamePart_processName {base : String} {id : List Char}
    (hhead : ∃ c cs, base.toList = c :: cs ∧ c.isAlphanum = true)
    (hchars : ∀ c ∈ base.toList, (c.isLower || c.isDigit || c == '.' || c == '-') = true)
    (hlen : id.length = 5) (hid : ∀ c ∈ id, c.isAlphanum = true) :
    isQualifiedNamePart ((processName base).toList ++ '-' :: id) = true := by
  obtain ⟨⟨c, cs, hproc, hc⟩, hproclen, hpre⟩ := processName_spec hhead
  have hne : id ≠ [] := fun h => by simp [h] at hlen
  simp only [isQualifiedNamePart, Bool.and_eq_true, decide_eq_true_eq, List.all_eq_true]
  refine ⟨⟨⟨?_, ?_⟩, ?_⟩, fun d hd => ?_⟩
  · rw [List.length_append, List.length_cons, hlen]
    omega
  · rw [hproc]
    exact hc
  · rw [List.getLast?_append_of_ne_nil _ (by simp), List.getLast?_cons,
      List.getLast?_eq_some_getLast hne, Option.getD_some, Option.any_some]
    exact hid _ (List.getLast_mem hne)
  · rcases List.mem_append.mp hd with hd | hd
    · have := hchars d (hpre.subset hd)
      simp only [isLabelChar, isAlphanum_eq] at this ⊢
      grind
    · rcases List.mem_cons.mp hd with rfl | hd
      · decide
      · exact isLabelChar_of_isAlphanum (hid d hd)

theorem isValidLabelValue_of_part {v : String} (h : isQualifiedNamePart v.toList = true) :
    isValidLabelValue v = true := by
  simp [isValidLabelValue, h]

/-- The name was generated from one made of lower-case letters, digits, dots and
dashes that begins with a letter or a digit. -/
def IsGeneratedName (name : String) : Prop :=
  ∃ base uuid : String, name = generateObjectName base uuid ∧
    (∃ c cs, base.toList = c :: cs ∧ c.isAlphanum = true) ∧
    (∀ c ∈ base.toList, (c.isLower || c.isDigit || c == '.' || c == '-') = true) ∧
    5 ≤ uuid.length ∧ ∀ c ∈ (shortUUID uuid).toList, c.isAlphanum = true

theorem toList_generateObjectName (base uuid : String) :
    (generateObjectName base uuid).toList =
      (processName base).toList ++ '-' :: (shortUUID uuid).toList := by
  simp [generateObjectName]

theorem length_shortUUID {uuid : String} (hlen : 5 ≤ uuid.length) :
    (shortUUID uuid).toList.length = 5 := by
  rw [shortUUID, String.toList_ofList, List.length_take, String.length_toList]
  exact min_eq_left hlen

theorem IsGeneratedName.valid {name : String} (hname : IsGeneratedName name) :
    isValidLabelValue name = true := by
  obtain ⟨base, uuid, rfl, hhead, hchars, hlen, huuid⟩ := hname
  apply isValidLabelValue_of_part
  rw [toList_generateObjectName]
  exact isQualifiedNamePart_processName hhead hchars (length_shortUUID hlen) huuid

/-- A hexadecimal MD5 digest, as far as its form matters: 32 letters and digits. -/
def IsDigest (id : String) : Prop :=
  id.length = 32 ∧ ∀ c ∈ id.toList, c.isAlphanum = true

theorem IsDigest.valid {id : String} (hid : IsDigest id) : isValidLabelValue id = true := by
  obtain ⟨hlen, hchars⟩ := hid
  have hlen' : id.toList.length = 32 := String.length_toList.trans hlen
  have hne : id.toList ≠ [] := fun h => by simp [h] at hlen'
  apply isValidLabelValue_of_part
  simp only [isQualifiedNamePart, Bool.and_eq_true, decide_eq_true_eq, List.all_eq_true]
  refine ⟨⟨⟨by omega, ?_⟩, ?_⟩, fun c hc => isLabelChar_of_isAlphanum (hchars c hc)⟩
  · rw [List.head?_eq_some_head hne, Option.any_some]
    exact hchars _ (List.head_mem hne)
  · rw [List.getLast?_eq_some_getLast hne, Option.any_some]
    exact hchars _ (List.getLast_mem hne)

/-! ### Hexadecimal texts -/

def isHexDigit (c : Char) : Bool := c.isDigit || (decide ('a' ≤ c) && decide (c ≤ 'f'))

def hexByte (b : UInt8) : List Char := [Nat.digitChar (b.toNat / 16), Nat.digitChar (b.toNat % 16)]

def hexText (bytes : List UInt8) : List Char := bytes.flatMap hexByte

def uuidText (b : Fin 16 → UInt8) : String :=
  String.ofList (hexText [b 0, b 1, b 2, b 3] ++ '-' :: hexText [b 4, b 5] ++
    '-' :: hexText [b 6, b 7] ++ '-' :: hexText [b 8, b 9] ++
    '-' :: hexText [b 10, b 11, b 12, b 13, b 14, b 15])

theorem isHexDigit_digitChar {n : ℕ} (hn : n < 16) : isHexDigit (Nat.digitChar n) = true := by
  interval_cases n <;> decide

theorem isHexDigit_of_mem {bytes : List UInt8} {c : Char} (hc : c ∈ hexText bytes) :
    isHexDigit c = true := by
  obtain ⟨b, -, hb⟩ := List.mem_flatMap.mp hc
  have hlt : b.toNat < 256 := b.toNat_lt
  rcases List.mem_cons.mp hb with rfl | hb
  · exact isHexDigit_digitChar (by omega)
  · rw [List.mem_singleton.mp hb]
    exact isHexDigit_digitChar (by omega)

theorem length_hexText (bytes : List UInt8) : (hexText bytes).length = 2 * bytes.length := by
  induction bytes with
  | nil => rfl
  | cons b bytes ih =>
    simp only [hexText, List.flatMap_cons, List.length_append, List.length_cons] at ih ⊢
    rw [ih]
    simp [hexByte]
    omega

theorem isAlphanum_of_isHexDigit {c : Char} (hc : isHexDigit c = true) : c.isAlphanum = true := by
  simp only [isHexDigit, Bool.or_eq_true, Bool.and_eq_true, decide_eq_true_eq] at hc
  rcases hc with hc | ⟨ha, hf⟩
  · simp [Char.isAlphanum, hc]
  · have hz : c ≤ 'z' := hf.trans (by decide)
    have hlower : c.isLower = true :=
      Bool.and_eq_true_iff.mpr ⟨decide_eq_true ha, decide_eq_true hz⟩
    simp [isAlphanum_eq, hlower]

theorem five_le_uuidText (b : Fin 16 → UInt8) : 5 ≤ (uuidText b).length := by
  rw [← String.length_toList, uuidText, String.toList_ofList]
  simp [length_hexText]

theorem isHexDigit_shortUUID (b : Fin 16 → UInt8) :
    ∀ c ∈ (shortUUID (uuidText b)).toList, isHexDigit c = true := by
  intro c hc
  rw [shortUUID, uuidText, String.toList_ofList, String.toList_ofList] at hc
  simp only [List.append_assoc] at hc
  rw [List.take_append_of_le_length (by simp [length_hexText])] at hc
  exact isHexDigit_of_mem (List.mem_of_mem_take hc)

/-! ### Queries by name -/

theorem workNameLabels_ne_empty (name : String) : workNameLabels name ≠ ∅ := by
  intro h
  have hwork : (workNameLabels name).lookup Label.work = some name := by
    simp [workNameLabels, Labels.lookup_ofList_cons]
  simp [h] at hwork

theorem workloadGroupLabels_ne_empty (name id : String) : workloadGroupLabels name id ≠ ∅ := by
  intro h
  have hwork : (workloadGroupLabels name id).lookup Label.work = some name := by
    simp [workloadGroupLabels, Labels.lookup_ofList_cons]
  simp [h] at hwork

theorem valid_workNameLabels {name : String} (hname : isValidLabelValue name = true) :
    (workNameLabels name).Valid := by
  rw [Labels.valid_iff]
  intro key v hv
  simp only [workNameLabels, Labels.lookup_ofList_cons, Labels.lookup_ofList_nil] at hv
  split_ifs at hv with hkey
  cases hv
  rw [hkey]
  exact ⟨by decide, hname⟩

theorem valid_workloadGroupLabels {name id : String} (hname : isValidLabelValue name = true)
    (hid : isValidLabelValue id = true) : (workloadGroupLabels name id).Valid := by
  rw [Labels.valid_iff]
  intro key v hv
  simp only [workloadGroupLabels, Labels.lookup_ofList_cons, Labels.lookup_ofList_nil] at hv
  split_ifs at hv with hwork hgroup
  · cases hv
    rw [hwork]
    exact ⟨by decide, hname⟩
  · cases hv
    rw [hgroup]
    exact ⟨by decide, hid⟩

/-- A prefix of the name, a dash and five hexadecimal characters, of a form that can
be used in queries for WorkPlacements. -/
structure WellNamed (env : Externals) (name result : String) : Prop where
  length_le : result.length ≤ 63
  starts : result.toList.head?.any Char.isAlphanum = true
  ends : result.toList.getLast?.any Char.isAlphanum = true
  parts : ∃ stem id : List Char, result.toList = stem ++ '-' :: id ∧ stem <+: name.toList ∧
    id.length = 5 ∧ ∀ c ∈ id, isHexDigit c = true
  valid : isValidLabelValue result = true
  parses : env.parseLabels (workNameLabels result) = some (Selector.fromSet (workNameLabels result))
  parsesGroup : ∀ id, IsDigest id → env.parseLabels (workloadGroupLabels result id) =
    some (Selector.fromSet (workloadGroupLabels result id))

theorem wellNamed_of_parts (env : Externals) {name result : String} {id : List Char}
    (hhead : name.toList.head?.any Char.isAlphanum = true)
    (hchars : ∀ c ∈ name.toList, (c.isLower || c.isDigit || c == '.' || c == '-') = true)
    (hresult : result.toList = (processName name).toList ++ '-' :: id) (hlen : id.length = 5)
    (hid : ∀ c ∈ id, isHexDigit c = true) : WellNamed env name result := by
  have hcons := exists_cons_of_head hhead
  have hpart : isQualifiedNamePart result.toList = true := by
    rw [hresult]
    exact isQualifiedNamePart_processName hcons hchars hlen
      fun c hc => isAlphanum_of_isHexDigit (hid c hc)
  have hvalid := isValidLabelValue_of_part hpart
  simp only [isQualifiedNamePart, Bool.and_eq_true, decide_eq_true_eq] at hpart
  obtain ⟨⟨⟨hshort, hstarts⟩, hends⟩, -⟩ := hpart
  exact {
    length_le := by rwa [← String.length_toList]
    starts := hstarts
    ends := hends
    parts := ⟨_, id, hresult, (processName_spec hcons).2.2, hlen, hid⟩
    valid := hvalid
    parses := env.parseLabels_of_valid (workNameLabels_ne_empty _) (valid_workNameLabels hvalid)
    parsesGroup := fun _ hdigest => env.parseLabels_of_valid (workloadGroupLabels_ne_empty _ _)
      (valid_workloadGroupLabels hvalid hdigest.valid) }

/-- Both generators return, and what they return is well formed, for every UUID and
for every hash that is written as the hexadecimal text of sixteen bytes. -/
theorem generated_names_wellNamed (env : Externals)
    (hhash : ∀ text, ∃ digest : Fin 16 → UInt8,
      (env.computeHash text).toList = hexText (List.ofFn digest))
    (name : String) (hhead : name.toList.head?.any Char.isAlphanum = true)
    (hchars : ∀ c ∈ name.toList, (c.isLower || c.isDigit || c == '.' || c == '-') = true)
    (uuid : Fin 16 → UInt8) :
    (∃ result, runGenerateObjectName name (uuidText uuid) = some result ∧
      WellNamed env name result) ∧
    ∃ result, runGenerateDeterministicObjectName env name = some result ∧
      WellNamed env name result := by
  constructor
  · refine ⟨_, runGenerateObjectName_eq hhead (five_le_uuidText uuid), ?_⟩
    exact wellNamed_of_parts env hhead hchars (toList_generateObjectName _ _)
      (length_shortUUID (five_le_uuidText uuid)) (isHexDigit_shortUUID uuid)
  · refine ⟨_, runGenerateDeterministicObjectName_eq hhead env, ?_⟩
    obtain ⟨digest, hdigest⟩ := hhash name
    have htext : (generateDeterministicObjectName env name).toList =
        (processName name).toList ++ '-' :: (env.computeHash name).toList.take 5 := by
      simp [generateDeterministicObjectName]
    apply wellNamed_of_parts env hhead hchars htext
    · rw [List.length_take, env.computeHash_length]
      rfl
    · intro c hc
      rw [hdigest] at hc
      exact isHexDigit_of_mem (List.mem_of_mem_take hc)

/-- The plain externals with a hash of the right form: every byte is the length of the text. -/
def hexExternals : Externals where
  __ := plainExternals
  computeHash text := String.ofList (hexText (List.ofFn fun _ : Fin 16 => text.length.toUInt8))
  computeHash_length text := by simp [length_hexText]
  computeHash_alphanum text := by
    intro c hc
    rw [String.toList_ofList] at hc
    exact isAlphanum_of_isHexDigit (isHexDigit_of_mem hc)

theorem generated_names_wellNamed_sample :
    (∃ result, runGenerateObjectName "redis.-" (uuidText fun i => i.val.toUInt8) = some result ∧
      WellNamed hexExternals "redis.-" result) ∧
    ∃ result, runGenerateDeterministicObjectName hexExternals "redis.-" = some result ∧
      WellNamed hexExternals "redis.-" result :=
  generated_names_wellNamed hexExternals (fun text => ⟨_, String.toList_ofList⟩) "redis.-"
    (by decide) (List.all_eq_true.mp (by decide)) fun i => i.val.toUInt8

end Kratix
