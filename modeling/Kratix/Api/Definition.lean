import Kratix.Api.Types
import Kratix.Lib.Keyed

/-!
# The definition of a Promise's API

A Promise brings the definition of its resource requests with it. Kratix bounds
the names of the requests in the stored version and adds its status fields to
every version. Schemas are changed in place: a map that is shared with the
definition takes a new entry with it, one that belongs to a copy does not, and
an entry in a map that does not exist stops the program.
-/

namespace Kratix.Apiextensions

open Apiserver

/-! ### Schemas -/

/-- The schema of a value; the keywords that Kratix does not look at are in `rest`. -/
structure JSONSchemaProps where
  type : String := ""
  format : String := ""
  maxLength : Option ℕ := none
  xPreserveUnknownFields : Option Bool := none
  rest : String := ""
  properties : Option (List (String × JSONSchemaProps)) := none
  items : Option JSONSchemaProps := none

abbrev Properties := List (String × JSONSchemaProps)

namespace Properties

def key (e : String × JSONSchemaProps) : Option String := some e.1

def find (props : Properties) (name : String) : Option JSONSchemaProps :=
  (Keyed.entry key props name).map Prod.snd

def set (props : Properties) (name : String) (schema : JSONSchemaProps) : Properties :=
  Keyed.put key name (name, schema) props

@[simp] theorem find_set (props : Properties) (name : String) (schema : JSONSchemaProps)
    (name' : String) : (props.set name schema).find name' =
      if name' = name then some schema else props.find name' := by
  have hkey : key (name, schema) = some name := rfl
  rw [find, set, Keyed.entry_put hkey]
  split <;> rfl

end Properties

/-- What the schema says about a property. -/
def JSONSchemaProps.property (schema : JSONSchemaProps) (name : String) : Option JSONSchemaProps :=
  schema.properties.bind fun props => Properties.find props name

/-! ### Definitions -/

structure CustomResourceValidation where
  openAPIV3Schema : Option JSONSchemaProps := none

structure CustomResourceColumnDefinition where
  name : String
  type : String
  jsonPath : String

structure CustomResourceSubresources where
  status : Bool := false
  scale : Option String := none

structure CustomResourceDefinitionVersion where
  name : String
  served : Bool := true
  storage : Bool := false
  schema : Option CustomResourceValidation := none
  subresources : Option CustomResourceSubresources := none
  additionalPrinterColumns : List CustomResourceColumnDefinition := []

structure CustomResourceDefinition where
  name : String
  labels : Labels := ∅
  group : String
  kind : String
  versions : List CustomResourceDefinitionVersion

structure GroupVersionKind where
  group : String
  version : String
  kind : String
  deriving DecidableEq

def CustomResourceDefinitionVersion.openAPIV3Schema (version : CustomResourceDefinitionVersion) :
    Option JSONSchemaProps :=
  version.schema.bind CustomResourceValidation.openAPIV3Schema

/-- The first version that is marked as stored, or the first one. -/
def CustomResourceDefinition.storedIndex (crd : CustomResourceDefinition) : ℕ :=
  (crd.versions.findIdx? CustomResourceDefinitionVersion.storage).getD 0

/-! ### GetAPI -/

inductive ApiFailure
  | noAPI
  | notACrd
  | panicked
  deriving DecidableEq

def maxResourceNameLength : ℕ := 63

def boundedName (metadataProps : Properties) : JSONSchemaProps :=
  let nameProp := (metadataProps.find "name").getD {}
  let nameProp := if nameProp.type = "" then { type := "string" } else nameProp
  { nameProp with maxLength := some maxResourceNameLength }

def ensureMetadataSchema (schema : JSONSchemaProps) : JSONSchemaProps :=
  let props := schema.properties.getD []
  let metadataSchema := (Properties.find props "metadata").getD
    { type := "object", properties := some [] }
  let props := if (Properties.find props "metadata").isSome then props
    else Properties.set props "metadata" metadataSchema
  match metadataSchema.properties with
  | none =>
    -- the map is made for a copy of the metadata schema, and so is the entry
    { schema with properties := some props }
  | some metadataProps =>
    { schema with properties := some (Properties.set props "metadata" { metadataSchema with
        properties := some (Properties.set metadataProps "name" (boundedName metadataProps)) }) }

/-- The schema of a version, if there is one, is changed where it is. -/
def CustomResourceDefinitionVersion.withMetadataSchema (version : CustomResourceDefinitionVersion) :
    CustomResourceDefinitionVersion :=
  { version with schema := version.schema.map fun validation =>
      { validation with openAPIV3Schema := validation.openAPIV3Schema.map ensureMetadataSchema } }

/-- The API of a Promise, where `decode` reads the raw text as a definition. -/
def getAPI (decode : String → Option CustomResourceDefinition) (raw : Option String) :
    Except ApiFailure (GroupVersionKind × CustomResourceDefinition) :=
  match raw with
  | none => .error .noAPI
  | some raw =>
    match decode raw with
    | none => .error .notACrd
    | some crd =>
      match crd.versions[crd.storedIndex]? with
      | none => .error .panicked
      | some storedVersion =>
        .ok (⟨crd.group, storedVersion.name, crd.kind⟩, { crd with
          versions := crd.versions.set crd.storedIndex storedVersion.withMetadataSchema })

/-! ### generateCRDAndGVK -/

def generateSharedLabels (promiseName : String) : Labels :=
  Labels.ofList [(Label.promiseName, promiseName)]

def defaultPrinterColumns : List CustomResourceColumnDefinition :=
  [⟨"message", "string", ".status.message"⟩,
    ⟨"status", "string", ".status.conditions[?(@.type==\"Reconciled\")].message"⟩]

/-- The conditions in the status of a request. -/
def conditionSchema : JSONSchemaProps where
  type := "object"
  properties := some [("lastTransitionTime", { type := "string", format := "datetime" }),
    ("message", { type := "string" }), ("reason", { type := "string" }),
    ("status", { type := "string" }), ("type", { type := "string" })]

def statusSchema : JSONSchemaProps where
  type := "object"
  xPreserveUnknownFields := some true
  properties := some [("message", { type := "string" }),
    ("observedGeneration", { type := "integer", format := "int64" }),
    ("workflows", { type := "integer", format := "int64" }),
    ("workflowsSucceeded", { type := "integer", format := "int64" }),
    ("workflowsFailed", { type := "integer", format := "int64" }),
    ("conditions", { type := "array", items := some conditionSchema })]

def setStatusFields (version : CustomResourceDefinitionVersion) :
    Except ApiFailure CustomResourceDefinitionVersion :=
  match version.schema with
  | none => .error .panicked
  | some validation =>
    match validation.openAPIV3Schema with
    | none => .error .panicked
    | some schema =>
      match schema.properties with
      | none => .error .panicked
      | some props =>
        let schema :=
          { schema with properties := some (Properties.set props "status" statusSchema) }
        .ok { version with
          subresources := some { status := true }
          additionalPrinterColumns :=
            if version.additionalPrinterColumns.length = 0 then defaultPrinterColumns
            else version.additionalPrinterColumns
          schema := some ⟨some schema⟩ }

def setStatusFieldsOnVersions :
    List CustomResourceDefinitionVersion → Except ApiFailure (List CustomResourceDefinitionVersion)
  | [] => .ok []
  | version :: rest =>
    match setStatusFields version with
    | .error e => .error e
    | .ok version =>
      match setStatusFieldsOnVersions rest with
      | .error e => .error e
      | .ok rest => .ok (version :: rest)

def setStatusFieldsOnCRD (rrCRD : CustomResourceDefinition) :
    Except ApiFailure CustomResourceDefinition :=
  match setStatusFieldsOnVersions rrCRD.versions with
  | .error e => .error e
  | .ok versions => .ok { rrCRD with versions := versions }

def generateCRDAndGVK (decode : String → Option CustomResourceDefinition) (promiseName : String)
    (raw : Option String) : Except ApiFailure (CustomResourceDefinition × GroupVersionKind) :=
  match getAPI decode raw with
  | .error e => .error e
  | .ok (rrGVK, rrCRD) =>
    match setStatusFieldsOnCRD { rrCRD with
        labels := rrCRD.labels.merge (generateSharedLabels promiseName) } with
    | .error e => .error e
    | .ok rrCRD => .ok (rrCRD, rrGVK)

end Kratix.Apiextensions
