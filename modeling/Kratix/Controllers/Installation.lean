import Kratix.Api.Definition

/-!
# Installing the definition of a Promise's API

Whether the bound on the names of resource requests reaches the installed
definition depends on which parts of the user's schema exist, and whether the
definition can be installed at all on the schemas of the versions that are not
stored.
-/

namespace Kratix.Apiextensions

open Apiserver

variable {schema result : JSONSchemaProps} {crd crd' : CustomResourceDefinition}
  {version version' : CustomResourceDefinitionVersion}

/-! ### The schema of the name -/

def BoundsName (schema : JSONSchemaProps) : Prop :=
  ∃ metadata name, schema.property "metadata" = some metadata ∧
    metadata.property "name" = some name ∧ name.maxLength = some maxResourceNameLength

/-- The keywords of the schema, without its properties. -/
def keywords (schema : JSONSchemaProps) : JSONSchemaProps := { schema with properties := none }

/-- Everything the user's schema says is still there, except for the bound on the
name and what is said about the properties in `exempt`. -/
structure Preserves (exempt : List String) (user result : JSONSchemaProps) : Prop where
  keywords_eq : keywords result = keywords user
  properties : ∀ key, key ≠ "metadata" → key ∉ exempt → result.property key = user.property key
  metadata : ∀ m, user.property "metadata" = some m →
    ∃ m', result.property "metadata" = some m' ∧ keywords m' = keywords m ∧
      (∀ key, key ≠ "name" → m'.property key = m.property key) ∧
      ∀ n, m.property "name" = some n →
        m'.property "name" = some { n with maxLength := some maxResourceNameLength }

/-- A schema of the metadata has properties, and a schema of the name a type. -/
structure Attached (user : JSONSchemaProps) : Prop where
  properties : ∀ m, user.property "metadata" = some m → m.properties ≠ none
  nameType : ∀ m n, user.property "metadata" = some m → m.property "name" = some n → n.type ≠ ""

theorem find_getD_properties (schema : JSONSchemaProps) (name : String) :
    Properties.find (schema.properties.getD []) name = schema.property name := by
  unfold JSONSchemaProps.property
  cases schema.properties <;> rfl

/-- The properties of the schema, the metadata apart, and its keywords. -/
theorem keywords_ensureMetadataSchema (user : JSONSchemaProps) :
    keywords (ensureMetadataSchema user) = keywords user ∧
      ∀ key, key ≠ "metadata" → (ensureMetadataSchema user).property key = user.property key := by
  unfold ensureMetadataSchema
  simp only
  split
  · refine ⟨rfl, fun key hkey => ?_⟩
    rw [← find_getD_properties user key]
    split
    · rfl
    · exact (Properties.find_set _ _ _ _).trans (if_neg hkey)
  · refine ⟨rfl, fun key hkey => ?_⟩
    rw [← find_getD_properties user key]
    refine (Properties.find_set _ _ _ _).trans ((if_neg hkey).trans ?_)
    split
    · rfl
    · exact (Properties.find_set _ _ _ _).trans (if_neg hkey)

theorem ensureMetadataSchema_of_none {m : JSONSchemaProps}
    (hm : schema.property "metadata" = some m) (hprops : m.properties = none) :
    (ensureMetadataSchema schema).property "metadata" = some m := by
  unfold ensureMetadataSchema
  simp only [find_getD_properties, hm, Option.getD_some, Option.isSome_some, if_true, hprops]
  exact (find_getD_properties schema "metadata").trans hm

theorem ensureMetadataSchema_of_some {m : JSONSchemaProps} {props : Properties}
    (hm : schema.property "metadata" = some m) (hprops : m.properties = some props) :
    (ensureMetadataSchema schema).property "metadata" =
      some { m with properties := some (props.set "name" (boundedName props)) } := by
  unfold ensureMetadataSchema
  simp only [find_getD_properties, hm, Option.getD_some, Option.isSome_some, if_true, hprops]
  exact (Properties.find_set _ _ _ _).trans (if_pos rfl)

theorem ensureMetadataSchema_of_absent (hm : schema.property "metadata" = none) :
    (ensureMetadataSchema schema).property "metadata" =
      some { type := "object"
             properties := some (Properties.set [] "name" (boundedName [])) } := by
  unfold ensureMetadataSchema
  simp only [find_getD_properties, hm, Option.getD_none]
  exact (Properties.find_set _ _ _ _).trans (if_pos rfl)

theorem property_of_properties {m : JSONSchemaProps} {props : Properties}
    (h : m.properties = some props) (key : String) : m.property key = props.find key := by
  rw [JSONSchemaProps.property, h]
  rfl

theorem property_set {m : JSONSchemaProps} {props : Properties} {name : String}
    {value : JSONSchemaProps} (h : m.properties = some (props.set name value)) (key : String) :
    m.property key = if key = name then some value else props.find key :=
  (property_of_properties h key).trans (Properties.find_set props name value key)

theorem maxLength_boundedName (props : Properties) :
    (boundedName props).maxLength = some maxResourceNameLength := rfl

theorem boundedName_of_find {props : Properties} {n : JSONSchemaProps}
    (h : props.find "name" = some n) (htype : n.type ≠ "") :
    boundedName props = { n with maxLength := some maxResourceNameLength } := by
  unfold boundedName
  rw [h]
  simp only [Option.getD_some, if_neg htype]

/-- The bound reaches the schema, and leaves the rest alone, exactly if the parts
of the schema that it goes through are attached. Properties in `exempt` may have
been changed since. -/
theorem bounds_and_preserves_iff {exempt : List String} (user : JSONSchemaProps)
    (hexempt : "metadata" ∉ exempt) (hkeywords : keywords result = keywords user)
    (hresult : ∀ key, key ∉ exempt →
      result.property key = (ensureMetadataSchema user).property key) :
    BoundsName result ∧ Preserves exempt user result ↔ Attached user := by
  have hmetadata := hresult "metadata" hexempt
  have hothers (key : String) (hkey : key ≠ "metadata") (he : key ∉ exempt) :
      result.property key = user.property key :=
    (hresult key he).trans ((keywords_ensureMetadataSchema user).2 key hkey)
  constructor
  · rintro ⟨⟨metadata, name, hm', hname, -⟩, hpreserves⟩
    have hattached (m : JSONSchemaProps) (hm : user.property "metadata" = some m) :
        m.properties ≠ none := by
      intro hnone
      rw [hmetadata, ensureMetadataSchema_of_none hm hnone] at hm'
      cases hm'
      rw [JSONSchemaProps.property, hnone] at hname
      cases hname
    refine ⟨hattached, fun m n hm hn htype => ?_⟩
    obtain ⟨props, hprops⟩ := Option.ne_none_iff_exists'.mp (hattached m hm)
    obtain ⟨m', hm'', -, -, hname'⟩ := hpreserves.metadata m hm
    rw [hmetadata, ensureMetadataSchema_of_some hm hprops] at hm''
    cases hm''
    have hkept := hname' n hn
    rw [property_set rfl, if_pos rfl] at hkept
    -- the schema of the name was replaced by one for strings
    have hfind : Properties.find props "name" = some n :=
      (property_of_properties hprops "name").symm.trans hn
    have hbounded : (boundedName props).type = "string" := by
      unfold boundedName
      rw [hfind]
      simp [htype]
    rw [Option.some.inj hkept] at hbounded
    exact absurd (hbounded.symm.trans htype) (by decide)
  · intro h
    cases hm : user.property "metadata" with
    | none =>
      rw [ensureMetadataSchema_of_absent hm] at hmetadata
      refine ⟨⟨_, _, hmetadata, (property_set rfl "name").trans (if_pos rfl),
        maxLength_boundedName _⟩, hkeywords, hothers, fun m h' => ?_⟩
      rw [hm] at h'
      cases h'
    | some m =>
      obtain ⟨props, hprops⟩ := Option.ne_none_iff_exists'.mp (h.properties m hm)
      rw [ensureMetadataSchema_of_some hm hprops] at hmetadata
      refine ⟨⟨_, _, hmetadata, (property_set rfl "name").trans (if_pos rfl),
        maxLength_boundedName _⟩, hkeywords, hothers, fun m₀ h₀ => ?_⟩
      obtain rfl : m = m₀ := Option.some.inj (hm.symm.trans h₀)
      refine ⟨_, hmetadata, rfl, fun key hkey => ?_, fun n hn => ?_⟩
      · rw [property_set rfl, if_neg hkey, property_of_properties hprops]
      · have hfind : Properties.find props "name" = some n :=
          (property_of_properties hprops "name").symm.trans hn
        rw [property_set rfl, if_pos rfl, boundedName_of_find hfind (h.nameType m n hm hn)]

/-! ### The versions -/

/-- What the user's definition says about its stored version. -/
def CustomResourceDefinition.storedSchema (crd : CustomResourceDefinition) :
    Option JSONSchemaProps :=
  crd.versions[crd.storedIndex]?.bind CustomResourceDefinitionVersion.openAPIV3Schema

/-- The same versions, by their names and by which of them is stored. -/
def SameVersions (crd crd' : CustomResourceDefinition) : Prop :=
  crd'.versions.map (fun v => (v.name, v.storage)) = crd.versions.map fun v => (v.name, v.storage)

theorem SameVersions.storedIndex (h : SameVersions crd crd') :
    crd'.storedIndex = crd.storedIndex := by
  have hstorage := congrArg (List.map Prod.snd) h
  simp only [List.map_map, Function.comp_def] at hstorage
  have hidx (l : List CustomResourceDefinitionVersion) :
      l.findIdx? CustomResourceDefinitionVersion.storage =
        (l.map fun v => v.storage).findIdx? id := by
    rw [List.findIdx?_map]
    rfl
  unfold CustomResourceDefinition.storedIndex
  rw [hidx, hidx, hstorage]

/-- The definition with the bound in its stored version. -/
def bounded (crd : CustomResourceDefinition) (version : CustomResourceDefinitionVersion) :
    CustomResourceDefinition :=
  { crd with versions := crd.versions.set crd.storedIndex version.withMetadataSchema }

theorem getAPI_eq {decode : String → Option CustomResourceDefinition} {raw : String}
    (hdecode : decode raw = some crd) (hversion : crd.versions[crd.storedIndex]? = some version) :
    getAPI decode (some raw) = .ok (⟨crd.group, version.name, crd.kind⟩, bounded crd version) := by
  unfold getAPI
  simp only [hdecode, hversion]
  rfl

theorem sameVersions_bounded (hversion : crd.versions[crd.storedIndex]? = some version) :
    SameVersions crd (bounded crd version) := by
  obtain ⟨hlt, rfl⟩ := List.getElem?_eq_some_iff.mp hversion
  have hlt' : crd.storedIndex < (crd.versions.map fun v => (v.name, v.storage)).length := by
    simpa using hlt
  have hself := List.set_getElem_self hlt'
  simp only [List.getElem_map] at hself
  rw [SameVersions, bounded, List.map_set]
  exact hself

theorem openAPIV3Schema_withMetadataSchema (version : CustomResourceDefinitionVersion) :
    version.withMetadataSchema.openAPIV3Schema =
      version.openAPIV3Schema.map ensureMetadataSchema := by
  unfold CustomResourceDefinitionVersion.withMetadataSchema
    CustomResourceDefinitionVersion.openAPIV3Schema
  cases version.schema <;> rfl

theorem getElem?_bounded (hversion : crd.versions[crd.storedIndex]? = some version) :
    (bounded crd version).versions[crd.storedIndex]? = some version.withMetadataSchema := by
  rw [bounded, List.getElem?_set_self (List.getElem?_eq_some_iff.mp hversion).1]

/-! ### The status fields -/

/-- What the status fields are for a version with a schema that has properties. -/
structure ShowsStatus (version version' : CustomResourceDefinitionVersion) : Prop where
  name : version'.name = version.name
  storage : version'.storage = version.storage
  subresource : version'.subresources = some { status := true }
  columns : version'.additionalPrinterColumns ≠ []
  schema : ∃ schema props, version.openAPIV3Schema = some schema ∧
    schema.properties = some props ∧ version'.openAPIV3Schema =
      some { schema with properties := some (Properties.set props "status" statusSchema) }

theorem setStatusFields_ok (h : setStatusFields version = .ok version') :
    ShowsStatus version version' := by
  unfold setStatusFields at h
  split at h
  · cases h
  · next validation hv =>
    split at h
    · cases h
    · next schema hs =>
      split at h
      · cases h
      · next props hp =>
        cases h
        refine ⟨rfl, rfl, rfl, ?_, schema, props, ?_, hp, rfl⟩
        · dsimp only
          split
          · exact List.cons_ne_nil _ _
          · next hlen => exact fun hnil => hlen (by rw [hnil]; rfl)
        · rw [CustomResourceDefinitionVersion.openAPIV3Schema, hv]
          exact hs

theorem exists_setStatusFields_iff :
    (∃ version', setStatusFields version = .ok version') ↔
      ∃ schema, version.openAPIV3Schema = some schema ∧ schema.properties ≠ none := by
  constructor
  · rintro ⟨version', h⟩
    obtain ⟨schema, props, hs, hp, -⟩ := (setStatusFields_ok h).schema
    exact ⟨schema, hs, by simp [hp]⟩
  · rintro ⟨schema, hs, hp⟩
    obtain ⟨props, hp⟩ := Option.ne_none_iff_exists'.mp hp
    obtain ⟨validation, hv, hs⟩ := Option.bind_eq_some_iff.mp hs
    unfold setStatusFields
    simp only [hv, hs, hp]
    exact ⟨_, rfl⟩

theorem setStatusFieldsOnVersions_ok {l l' : List CustomResourceDefinitionVersion}
    (h : setStatusFieldsOnVersions l = .ok l') : List.Forall₂ ShowsStatus l l' := by
  induction l generalizing l' with
  | nil =>
    cases h
    exact .nil
  | cons version rest ih =>
    unfold setStatusFieldsOnVersions at h
    split at h
    · cases h
    · next version' hv =>
      split at h
      · cases h
      · next rest' hrest =>
        cases h
        exact .cons (setStatusFields_ok hv) (ih hrest)

theorem exists_setStatusFieldsOnVersions_iff {l : List CustomResourceDefinitionVersion} :
    (∃ l', setStatusFieldsOnVersions l = .ok l') ↔ ∀ version ∈ l, ∃ schema,
      version.openAPIV3Schema = some schema ∧ schema.properties ≠ none := by
  induction l with
  | nil => exact ⟨fun _ _ hv => absurd hv List.not_mem_nil, fun _ => ⟨[], rfl⟩⟩
  | cons version rest ih =>
    rw [List.forall_mem_cons, ← ih, ← exists_setStatusFields_iff]
    constructor
    · rintro ⟨l', h⟩
      unfold setStatusFieldsOnVersions at h
      split at h
      · cases h
      · next version' hv =>
        split at h
        · cases h
        · next rest' hrest => exact ⟨⟨version', hv⟩, rest', hrest⟩
    · rintro ⟨⟨version', hv⟩, rest', hrest⟩
      refine ⟨version' :: rest', ?_⟩
      rw [setStatusFieldsOnVersions, hv, hrest]

/-- The definition that is generated is the bounded one with the status fields. -/
theorem generateCRDAndGVK_ok {decode : String → Option CustomResourceDefinition} {raw : String}
    {promiseName : String} {gvk : GroupVersionKind} (hdecode : decode raw = some crd)
    (hversion : crd.versions[crd.storedIndex]? = some version)
    (h : generateCRDAndGVK decode promiseName (some raw) = .ok (crd', gvk)) :
    gvk = ⟨crd.group, version.name, crd.kind⟩ ∧
      List.Forall₂ ShowsStatus (bounded crd version).versions crd'.versions := by
  unfold generateCRDAndGVK at h
  rw [getAPI_eq hdecode hversion] at h
  simp only [setStatusFieldsOnCRD] at h
  cases hs : setStatusFieldsOnVersions (bounded crd version).versions with
  | error e =>
    rw [hs] at h
    cases h
  | ok versions =>
    rw [hs] at h
    cases h
    exact ⟨rfl, setStatusFieldsOnVersions_ok hs⟩

theorem names_of_showsStatus {l l' : List CustomResourceDefinitionVersion}
    (h : List.Forall₂ ShowsStatus l l') :
    l'.map (fun v => (v.name, v.storage)) = l.map fun v => (v.name, v.storage) := by
  induction h with
  | nil => rfl
  | cons hv _ ih => rw [List.map_cons, List.map_cons, hv.name, hv.storage, ih]

theorem getElem?_of_showsStatus {l l' : List CustomResourceDefinitionVersion} {i : ℕ}
    (h : List.Forall₂ ShowsStatus l l') (hi : l[i]? = some version) :
    ∃ version', l'[i]? = some version' ∧ ShowsStatus version version' := by
  induction h generalizing i with
  | nil => cases hi
  | cons hv _ ih =>
    cases i with
    | zero =>
      cases hi
      exact ⟨_, rfl, hv⟩
    | succ i => exact ih hi

theorem exists_showsStatus_of_mem {l l' : List CustomResourceDefinitionVersion}
    (h : List.Forall₂ ShowsStatus l l') (hv' : version' ∈ l') :
    ∃ version ∈ l, ShowsStatus version version' := by
  induction h with
  | nil => cases hv'
  | cons hv _ ih =>
    rcases List.mem_cons.mp hv' with rfl | hv'
    · exact ⟨_, List.mem_cons_self, hv⟩
    · obtain ⟨v, hmem, hv⟩ := ih hv'
      exact ⟨v, List.mem_cons_of_mem _ hmem, hv⟩

/-! ### The bound in the installed definition -/

section

variable {decode : String → Option CustomResourceDefinition} {raw : String}
  {user : JSONSchemaProps}

/-- For every definition and every schema of its stored version, the bound on the
name is in the definition that is read, and in the one that is installed, with
the rest of the schema unchanged, exactly if the schema is attached. -/
theorem names_bounded_iff (hdecode : decode raw = some crd)
    (huser : crd.storedSchema = some user) :
    (∃ gvk crd' result, getAPI decode (some raw) = .ok (gvk, crd') ∧
      crd'.storedSchema = some result ∧
      (BoundsName result ∧ Preserves [] user result ↔ Attached user)) ∧
    ∀ promiseName crd' gvk, generateCRDAndGVK decode promiseName (some raw) = .ok (crd', gvk) →
      ∃ result, crd'.storedSchema = some result ∧
        (BoundsName result ∧ Preserves ["status"] user result ↔ Attached user) := by
  obtain ⟨version, hversion, hschema⟩ := Option.bind_eq_some_iff.mp huser
  have hindex := (sameVersions_bounded hversion).storedIndex
  have hbounded := getElem?_bounded hversion
  have hensured :
      version.withMetadataSchema.openAPIV3Schema = some (ensureMetadataSchema user) := by
    rw [openAPIV3Schema_withMetadataSchema, hschema]
    rfl
  have hkeywords := (keywords_ensureMetadataSchema user).1
  constructor
  · refine ⟨_, _, ensureMetadataSchema user, getAPI_eq hdecode hversion, ?_,
      bounds_and_preserves_iff user List.not_mem_nil hkeywords fun _ _ => rfl⟩
    rw [CustomResourceDefinition.storedSchema, hindex, hbounded]
    exact hensured
  · intro promiseName crd' gvk hgen
    obtain ⟨-, hstatus⟩ := generateCRDAndGVK_ok hdecode hversion hgen
    have hsame : SameVersions (bounded crd version) crd' := names_of_showsStatus hstatus
    have hindex' := hsame.storedIndex
    obtain ⟨version', hversion', hshows⟩ := getElem?_of_showsStatus hstatus hbounded
    obtain ⟨schema, props, hs, hprops, hs'⟩ := hshows.schema
    obtain rfl : ensureMetadataSchema user = schema := Option.some.inj (hensured.symm.trans hs)
    refine ⟨{ ensureMetadataSchema user with
      properties := some (Properties.set props "status" statusSchema) }, ?_,
      bounds_and_preserves_iff user (by decide) hkeywords fun key hkey => ?_⟩
    · rw [CustomResourceDefinition.storedSchema, hindex', hindex, hversion']
      exact hs'
    · have hne : key ≠ "status" := by simpa using hkey
      rw [property_set rfl, if_neg hne, property_of_properties hprops]

end

def definitionWith (schema : JSONSchemaProps) : CustomResourceDefinition where
  name := "redis.example.org"
  group := "example.org"
  kind := "redis"
  versions := [{ name := "v1", storage := true, schema := some ⟨some schema⟩ }]

/-- Whatever the text is. -/
def decodesTo (crd : CustomResourceDefinition) (_ : String) : Option CustomResourceDefinition :=
  some crd

/-- The schema mentions the metadata and says no more about it. -/
def bareMetadata : JSONSchemaProps where
  type := "object"
  properties := some [("metadata", { type := "object" })]

/-- The bound is put into a map that nobody sees. -/
theorem bound_lost : ∃ crd' gvk result,
    generateCRDAndGVK (decodesTo (definitionWith bareMetadata)) "redis" (some "") =
      .ok (crd', gvk) ∧
    crd'.storedSchema = some result ∧ ¬ BoundsName result := by
  refine ⟨_, _, _, rfl, rfl, ?_⟩
  rintro ⟨metadata, name, hm, hn, -⟩
  obtain rfl := Option.some.inj hm
  cases hn

def plainSchema : JSONSchemaProps where
  type := "object"
  properties := some [("spec", { type := "object" })]

theorem names_bounded_iff_sample : ∃ crd' gvk result,
    getAPI (decodesTo (definitionWith plainSchema)) (some "") = .ok (gvk, crd') ∧
    crd'.storedSchema = some result ∧ BoundsName result ∧ Preserves [] plainSchema result := by
  have hattached : Attached plainSchema := by
    constructor
    · intro m hm
      cases hm
    · intro m n hm
      cases hm
  have hdecode :
      decodesTo (definitionWith plainSchema) "" = some (definitionWith plainSchema) := rfl
  have huser : (definitionWith plainSchema).storedSchema = some plainSchema := rfl
  obtain ⟨gvk, crd', result, hapi, hresult, hiff⟩ := (names_bounded_iff hdecode huser).1
  exact ⟨crd', gvk, result, hapi, hresult, hiff.mpr hattached⟩

/-! ### Installing every version -/

/-- What the webhook lets through: every version has a schema, and exactly one is stored. -/
structure Admitted (crd : CustomResourceDefinition) : Prop where
  schemas : ∀ version ∈ crd.versions, version.openAPIV3Schema ≠ none
  stored : ∃! i : ℕ, ∃ version, crd.versions[i]? = some version ∧ version.storage = true

/-- The definition can be installed, and shows the status of the requests in every version. -/
structure Installs (crd crd' : CustomResourceDefinition) (gvk : GroupVersionKind) : Prop where
  names : ∃ version ∈ crd.versions, version.storage = true ∧
    gvk = ⟨crd.group, version.name, crd.kind⟩
  versions : ∀ version ∈ crd'.versions, version.subresources = some { status := true } ∧
    version.additionalPrinterColumns ≠ [] ∧
    ∃ schema, version.openAPIV3Schema = some schema ∧ schema.property "status" = some statusSchema

theorem Admitted.exists_stored (h : Admitted crd) : ∃ version,
    crd.versions[crd.storedIndex]? = some version ∧ version.storage = true := by
  obtain ⟨i, ⟨version, hi, hstorage⟩, -⟩ := h.stored
  have hmem := List.mem_of_getElem? hi
  cases hidx : crd.versions.findIdx? CustomResourceDefinitionVersion.storage with
  | none => exact absurd hstorage (by simpa using List.findIdx?_eq_none_iff.mp hidx version hmem)
  | some j =>
    obtain ⟨hj, hstored, -⟩ := List.findIdx?_eq_some_iff_getElem.mp hidx
    have hindex : crd.storedIndex = j := by
      rw [CustomResourceDefinition.storedIndex, hidx]
      rfl
    refine ⟨crd.versions[j], ?_, hstored⟩
    rw [hindex]
    exact List.getElem?_eq_getElem hj

theorem properties_ensureMetadataSchema (user : JSONSchemaProps) :
    (ensureMetadataSchema user).properties ≠ none := by
  unfold ensureMetadataSchema
  simp only
  split <;> exact Option.some_ne_none _

/-- Of the bounded definition, the stored version always has properties. -/
theorem Admitted.bounded_iff (h : Admitted crd)
    (hversion : crd.versions[crd.storedIndex]? = some version) (hstorage : version.storage = true) :
    (∀ v ∈ (bounded crd version).versions, ∃ schema, v.openAPIV3Schema = some schema ∧
      schema.properties ≠ none) ↔
    ∀ v ∈ crd.versions, v.storage = false → ∀ schema, v.openAPIV3Schema = some schema →
      schema.properties ≠ none := by
  have hlt := (List.getElem?_eq_some_iff.mp hversion).1
  constructor
  · intro hall v hv hnot schema hschema
    obtain ⟨j, hj⟩ := List.getElem?_of_mem hv
    have hne : crd.storedIndex ≠ j := by
      rintro rfl
      rw [Option.some.inj (hversion.symm.trans hj)] at hstorage
      exact absurd (hstorage.symm.trans hnot) (by decide)
    have hmem : v ∈ (bounded crd version).versions :=
      List.mem_of_getElem? ((List.getElem?_set_ne hne).trans hj)
    obtain ⟨schema', hschema', hprops⟩ := hall v hmem
    rwa [Option.some.inj (hschema.symm.trans hschema')]
  · intro hall v hv
    obtain ⟨j, hj⟩ := List.getElem?_of_mem hv
    by_cases hne : crd.storedIndex = j
    · subst hne
      obtain rfl : version.withMetadataSchema = v :=
        Option.some.inj ((getElem?_bounded hversion).symm.trans hj)
      obtain ⟨user, huser⟩ := Option.ne_none_iff_exists'.mp
        (h.schemas version (List.mem_of_getElem? hversion))
      refine ⟨ensureMetadataSchema user, ?_, properties_ensureMetadataSchema user⟩
      rw [openAPIV3Schema_withMetadataSchema, huser]
      rfl
    · have hj' : crd.versions[j]? = some v := (List.getElem?_set_ne hne).symm.trans hj
      have hmem := List.mem_of_getElem? hj'
      have hnot : v.storage = false := by
        -- there is only one stored version
        by_contra hstored
        obtain ⟨i, -, honly⟩ := h.stored
        have hi := honly crd.storedIndex ⟨version, hversion, hstorage⟩
        have hi' := honly j ⟨v, hj', by simpa using hstored⟩
        exact hne (hi.trans hi'.symm)
      obtain ⟨schema, hschema⟩ := Option.ne_none_iff_exists'.mp (h.schemas v hmem)
      exact ⟨schema, hschema, hall v hmem hnot schema hschema⟩

/-- An admitted definition can be installed, with everything Kratix adds to it,
exactly if the versions that are not stored have properties. -/
theorem installs_iff {decode : String → Option CustomResourceDefinition} {raw : String}
    (promiseName : String) (hdecode : decode raw = some crd) (h : Admitted crd) :
    (∃ crd' gvk, generateCRDAndGVK decode promiseName (some raw) = .ok (crd', gvk) ∧
      Installs crd crd' gvk) ↔
    ∀ version ∈ crd.versions, version.storage = false → ∀ schema,
      version.openAPIV3Schema = some schema → schema.properties ≠ none := by
  obtain ⟨version, hversion, hstorage⟩ := h.exists_stored
  rw [← h.bounded_iff hversion hstorage, ← exists_setStatusFieldsOnVersions_iff]
  constructor
  · rintro ⟨crd', gvk, hgen, -⟩
    unfold generateCRDAndGVK at hgen
    rw [getAPI_eq hdecode hversion] at hgen
    simp only [setStatusFieldsOnCRD] at hgen
    cases hs : setStatusFieldsOnVersions (bounded crd version).versions with
    | error e =>
      rw [hs] at hgen
      cases hgen
    | ok versions => exact ⟨versions, rfl⟩
  · rintro ⟨versions, hs⟩
    obtain ⟨crd', hgen⟩ : ∃ crd', generateCRDAndGVK decode promiseName (some raw) =
        .ok (crd', ⟨crd.group, version.name, crd.kind⟩) := by
      unfold generateCRDAndGVK
      rw [getAPI_eq hdecode hversion]
      simp only [setStatusFieldsOnCRD, hs]
      exact ⟨_, rfl⟩
    refine ⟨crd', _, hgen, ⟨version, List.mem_of_getElem? hversion, hstorage, rfl⟩, ?_⟩
    intro v' hv'
    obtain ⟨-, hstatus⟩ := generateCRDAndGVK_ok hdecode hversion hgen
    obtain ⟨v, -, hshows⟩ := exists_showsStatus_of_mem hstatus hv'
    obtain ⟨schema, props, -, -, hschema⟩ := hshows.schema
    exact ⟨hshows.subresource, hshows.columns, _, hschema, (property_set rfl "status").trans
      (if_pos rfl)⟩

/-- A stored version, and an older one with the given schema. -/
def twoVersions (older : JSONSchemaProps) : CustomResourceDefinition :=
  { definitionWith plainSchema with versions :=
    [{ name := "v1alpha1", schema := some ⟨some older⟩ },
      { name := "v1", storage := true, schema := some ⟨some plainSchema⟩ }] }

theorem admitted_twoVersions (older : JSONSchemaProps) : Admitted (twoVersions older) := by
  constructor
  · intro version hmem
    rcases List.mem_pair.mp hmem with rfl | rfl <;> exact Option.some_ne_none _
  · refine ⟨1, ⟨_, rfl, rfl⟩, ?_⟩
    rintro i ⟨version, hi, hstorage⟩
    cases i with
    | zero =>
      obtain rfl := Option.some.inj hi
      cases hstorage
    | succ i =>
      cases i with
      | zero => rfl
      | succ i => cases hi

/-- An older version that allows any object stops the reconcile of the Promise. -/
theorem older_version_panics : Admitted (twoVersions { type := "object" }) ∧
    generateCRDAndGVK (decodesTo (twoVersions { type := "object" })) "redis" (some "") =
      .error .panicked :=
  ⟨admitted_twoVersions _, rfl⟩

theorem installs_iff_sample : ∃ crd' gvk,
    generateCRDAndGVK (decodesTo (twoVersions plainSchema)) "redis" (some "") = .ok (crd', gvk) ∧
      Installs (twoVersions plainSchema) crd' gvk := by
  have hdecode : decodesTo (twoVersions plainSchema) "" = some (twoVersions plainSchema) := rfl
  refine (installs_iff "redis" hdecode (admitted_twoVersions plainSchema)).mpr ?_
  intro version hmem _ schema hschema
  obtain rfl : plainSchema = schema := by
    rcases List.mem_pair.mp hmem with rfl | rfl <;> exact Option.some.inj hschema
  exact Option.some_ne_none _

end Kratix.Apiextensions
