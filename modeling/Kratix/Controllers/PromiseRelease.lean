import Kratix.Controllers.Shared
import Kratix.Controllers.StateStore
import Kratix.Scheduling.Scheduler
import Kratix.Lib.Concurrent

/-!
# The PromiseRelease controller

A PromiseRelease installs a Promise from a document that is fetched from a URL. The
Promise gets the name in the document and a label with the name of the release; by
that label the controller finds it again. Events and the texts of the API server's
own errors are left out.
-/

namespace Kratix.PromiseReleases

open Apiserver Effect

def promiseReleaseNameLabel := "kratix.io/promise-release-name"

def promiseCleanupFinalizer := "kratix.io/promise-cleanup"

inductive SourceType
  | http
  | unknown (text : String)
  deriving DecidableEq

structure SourceRef where
  type : SourceType := .http
  url : String := ""
  secretRef : Option StateStores.SecretReference := none
  deriving DecidableEq

structure PromiseReleaseSpec where
  version : String := ""
  sourceRef : SourceRef := {}
  deriving DecidableEq

structure PromiseReleaseStatus where
  status : String := ""
  conditions : List Condition := []
  deriving DecidableEq

inductive Kind
  | promiseRelease
  | promise
  | secret
  deriving DecidableEq

@[reducible]
def scheme : Scheme where
  Kind := Kind
  decEq := inferInstance
  Spec
    | .promiseRelease => PromiseReleaseSpec
    | .promise => PromiseSpec
    | .secret => StringMap Bytes
  Status
    | .promiseRelease => PromiseReleaseStatus
    | .promise => ParentStatus
    | .secret => Unit
  namespaced
    | .promiseRelease => false
    | .promise => false
    | .secret => true

abbrev PromiseRelease := Object PromiseReleaseSpec PromiseReleaseStatus

/-- A stored Promise, or the document that describes one. -/
abbrev Promise := Object PromiseSpec ParentStatus

/-! ### Calls -/

inductive Call
  | api (call : ApiCall scheme)
  | fromURL (url : String) (authHeader : Bytes)

abbrev signature : Signature where
  Call := Call
  Answer
    | .api call => Except ApiError call.Result
    | .fromURL _ _ => Except String Promise

abbrev Prog (α : Type) := Program signature α

def api (call : ApiCall scheme) : Prog (Except ApiError call.Result) :=
  Program.perform (S := signature) (.api call)

def fromURL (url : String) (authHeader : Bytes) : Prog (Except String Promise) :=
  Program.perform (S := signature) (.fromURL url authHeader)

/-- An error with another one inside. -/
def wrapped (text : String) : Failure → Failure
  | .message inner => .message (text ++ ": " ++ inner)
  | _ => .message text

/-! ### Status -/

def statusInstalled := "Installed"

def statusErrorInstalling := "Error installing"

def conditionMessageInstalled := "Installed successfully"

def conditionReasonInstalled := "InstalledSuccessfully"

/-- A failing update of the status is only logged. -/
def updateStatusAndConditions (pr : PromiseRelease)
    (status conditionMessage conditionReason : String) : Prog Unit :=
  let alreadyCorrect := (findCondition pr.status.conditions "Installed").any fun existing =>
    existing.message == conditionMessage && existing.reason == conditionReason
  if alreadyCorrect then return ()
  else do
    let conditionStatus := if conditionMessage = conditionMessageInstalled then .conditionTrue
      else .conditionFalse
    let conditions := (setStatusCondition pr.status.conditions
      ⟨"Installed", conditionStatus, conditionReason, conditionMessage, 0⟩).2
    let _ ← api (.updateStatus .promiseRelease { pr with status := ⟨status, conditions⟩ })
    return ()

/-! ### Installation -/

def listPromises (promiseReleaseName : String) : Prog (Except ApiError (List Promise)) :=
  api (.list .promise ""
    (Selector.fromSet (Labels.ofList [(promiseReleaseNameLabel, promiseReleaseName)])))

def promiseExistsAtDesiredVersion (promiseRelease : PromiseRelease) :
    Prog (Except Failure Bool) := do
  match ← listPromises promiseRelease.metadata.name with
  | .error e => return .error (wrapped "failed to list promises" (.api e))
  | .ok [] => return .ok false
  | .ok [promise] =>
    return .ok (promise.metadata.labels.value Label.promiseVersion == promiseRelease.spec.version)
  | .ok promises =>
    return .error (.message ("expected 0 or 1 promises, got " ++ toString promises.length))

/-- The entries of the Secret, if one is referenced. -/
def fetchSecretFromReference (promiseRelease : PromiseRelease) :
    Prog (Except ApiError (Option (StringMap Bytes))) := do
  match promiseRelease.spec.sourceRef.secretRef with
  | none => return .ok none
  | some secretRef =>
    let ns := if secretRef.ns ≠ "" then secretRef.ns else promiseRelease.metadata.ns
    match ← api (.get .secret ns secretRef.name) with
    | .error e => return .error e
    | .ok fetchSecret => return .ok (some fetchSecret.spec)

/-- Whether the release took its version from the document. -/
def validateVersion (promiseRelease : PromiseRelease) (promise : Promise) :
    Prog (Except Failure Bool) := do
  match promise.metadata.labels.lookup Label.promiseVersion with
  | none =>
    updateStatusAndConditions promiseRelease statusErrorInstalling
      "Version label not found on Promise" "VersionLabelNotFound"
    return .error (.message ("version label (" ++ Label.promiseVersion ++
      ") not found on promise; refusing to install"))
  | some promiseVersion =>
    if promiseRelease.spec.version = "" then
      match ← api (.update .promiseRelease { promiseRelease with
          spec := { promiseRelease.spec with version := promiseVersion } }) with
      | .error e => return .error (wrapped "failed to set promise release version" (.api e))
      | .ok _ => return .ok true
    else if promiseVersion ≠ promiseRelease.spec.version then
      updateStatusAndConditions promiseRelease statusErrorInstalling
        ("Version labels do not match, found: " ++ promiseVersion ++ ", expected: " ++
          promiseRelease.spec.version) "VersionNotMatching"
      return .error (.message ("version label on promise (" ++ promiseVersion ++
        ") does not match version on promise release (" ++ promiseRelease.spec.version ++
        "); refusing to install"))
    else return .ok false

/-- What the existing Promise, or an empty one, becomes. -/
def mutatePromise (promiseRelease : PromiseRelease) (promise existingPromise : Promise) :
    Except Failure Promise :=
  setControllerReference promiseRelease.metadata { existingPromise with
    metadata := { existingPromise.metadata with
      labels := (existingPromise.metadata.labels.merge promise.metadata.labels).insert
        promiseReleaseNameLabel promiseRelease.metadata.name
      annotations := existingPromise.metadata.annotations.merge promise.metadata.annotations }
    spec := promise.spec }

def installPromise (promiseRelease : PromiseRelease) (promise : Promise) :
    Prog (Option Failure) := do
  match ← api (.get .promise "" promise.metadata.name) with
  | .error .notFound =>
    match mutatePromise promiseRelease promise ⟨{ name := promise.metadata.name }, {}, {}⟩ with
    | .error e => return some e
    | .ok new =>
      match ← api (.create .promise new) with
      | .error e => return some (.api e)
      | .ok _ => return none
  | .error e => return some (.api e)
  | .ok existingPromise =>
    match mutatePromise promiseRelease promise existingPromise with
    | .error e => return some e
    | .ok new =>
      if new = existingPromise then return none
      else
        match ← api (.update .promise new) with
        | .error e => return some (.api e)
        | .ok _ => return none

/-! ### Deletion -/

def deletePromises : List Promise → Prog ReconcileResult
  | [] => return ⟨.default, none⟩
  | promise :: promises =>
    if promise.metadata.deleting then deletePromises promises
    else do
      match ← api (.delete .promise promise.metadata.ns promise.metadata.name) with
      | .error e => return { err := some (wrapped "failed to delete Promise" (.api e)) }
      | .ok _ => deletePromises promises

def delete (promiseRelease : PromiseRelease) : Prog ReconcileResult :=
  if !containsFinalizer promiseRelease promiseCleanupFinalizer then return {}
  else do
    match ← listPromises promiseRelease.metadata.name with
    | .error e => return { err := some (wrapped "failed to list promises" (.api e)) }
    | .ok [] =>
      match ← api (.update .promiseRelease
          (removeFinalizer promiseRelease promiseCleanupFinalizer)) with
      | .error e => return { err := some (wrapped "failed to remove finalizer" (.api e)) }
      | .ok _ => return {}
    | .ok promises => deletePromises promises

/-! ### Reconcile -/

/-- The result of a reconcile, with the information whether Installed is the status it
reported. -/
structure Outcome extends ReconcileResult where
  reportsInstalled : Bool := false
  deriving DecidableEq

def Outcome.failed (e : Failure) : Outcome := { err := some e }

def reportInstalled (promiseRelease : PromiseRelease) : Prog Outcome := do
  updateStatusAndConditions promiseRelease statusInstalled conditionMessageInstalled
    conditionReasonInstalled
  return { reportsInstalled := true }

def install (promiseRelease : PromiseRelease) (promise : Promise) : Prog Outcome := do
  match ← installPromise promiseRelease promise with
  | some e =>
    updateStatusAndConditions promiseRelease statusErrorInstalling
      "Failed to create or update Promise" "FailedToCreateOrUpdatePromise"
    return .failed (wrapped "failed to create or update promise" e)
  | none => reportInstalled promiseRelease

def fetchAndInstall (promiseRelease : PromiseRelease) : Prog Outcome := do
  match ← fetchSecretFromReference promiseRelease with
  | .error e => return .failed (wrapped "failed to fetch data from secretRef" (.api e))
  | .ok secretRefData =>
    let authHeader := (secretRefData.bind (·.lookup "authorizationHeader")).getD []
    match promiseRelease.spec.sourceRef.type with
    | .unknown _ => return {}
    | .http =>
      match ← fromURL promiseRelease.spec.sourceRef.url authHeader with
      | .error e =>
        updateStatusAndConditions promiseRelease statusErrorInstalling
          "Failed to fetch Promise from URL" "FailedToFetchPromise"
        return .failed (wrapped "failed to fetch promise from url" (.message e))
      | .ok promise =>
        match ← validateVersion promiseRelease promise with
        | .error e => return .failed e
        | .ok true => return {}
        | .ok false => install promiseRelease promise

def reconcile (name : String) : Prog Outcome := do
  match ← api (.get .promiseRelease "" name) with
  | .error .notFound => return {}
  | .error _ => return { requeue := .default }
  | .ok promiseRelease =>
    if promiseRelease.metadata.deleting then
      return { toReconcileResult := ← delete promiseRelease }
    else if !containsFinalizer promiseRelease promiseCleanupFinalizer then
      return { toReconcileResult := .ofWrite .none (← api (.update .promiseRelease
        (addFinalizer promiseRelease promiseCleanupFinalizer))) }
    else
      match ← promiseExistsAtDesiredVersion promiseRelease with
      | .error e => return .failed (wrapped "failed to check if promise exists" e)
      | .ok true => reportInstalled promiseRelease
      | .ok false => fetchAndInstall promiseRelease

end Kratix.PromiseReleases
