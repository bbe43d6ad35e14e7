import ArtdaqDatabase.ManagementEffects

/-!
# Calls of the configuration interface

The calls that may write to the file system, each with what it does to the store.
Whatever it reads and checks, a call ends in at most one write of the provider,
whose payload is prepared from the store alone.
-/

namespace ArtdaqDatabase

open OrderedTable InPlaceUpdate

/-! ## Versions -/

/-- The setters of the options. -/
def optionText (text : String) : Except Failure OptionText :=
  if htext : text = "" then .error .confirmFailed else .ok ⟨text, htext⟩

/-- The options of a version; an entity that is not given stays not provided. -/
def versionOptions (format : DataFormat) (collection version entity : String) :
    Except Failure ManageDocumentOperation := do
  if version = "" then .error (.invalidArgument "Version is empty")
  else
    let collection ← optionText collection
    let version ← optionText version
    .ok
      { operation := "load"
        format := format
        collection := collection
        version := version
        entity := if hentity : entity = "" then notprovided else ⟨entity, hentity⟩ }

/-- The record with the payload of new data, which are wrapped as `{"data":...}`. -/
def withNewData (c : Conversions) (clock : Clock) (data : Text) (dbRecord : Object) :
    Except Failure Object := do
  let wrapped ← wrapData c data
  let newRecord ← createFromData (clock 0) (clock 1) wrapped
  let document ← valueAt "document" newRecord
  .ok (set "document" document dbRecord)

namespace ConfigurationInterface

/-- `overwriteVersion`; `data` is what the serializer of the configuration writes. -/
def overwriteVersion (c : Conversions) (clock : Clock) (collection version entity : String)
    (data : Except Failure Text) : InPlace Failure Store Text := do
  let options ← lift (versionOptions .db collection version entity)
  let buffer ← fetch (detail.readDocument c options)
  let data ← lift data
  let dbRecord ← lift buffer.document
  let updated ← lift (withNewData c clock data dbRecord)
  detail.writeDocument c (clock.drop 2) { options with operation := "overwritedocument" }
    (.json (.object updated))

/-- `loadVersion`, without the reading of the text by the serializer. -/
def loadVersion (c : Conversions) (format : DataFormat) (collection version entity : String)
    (store : Store) : Except Failure Text := do
  let options ← versionOptions format collection version entity
  detail.readDocument c options store

end ConfigurationInterface

/-! ## Configurations -/

/-- The edit of a configuration in the document that the options select. -/
inductive ConfigurationEdit where
  | assign
  | remove
  deriving DecidableEq

/-- The name of the operation. -/
def ConfigurationEdit.name : ConfigurationEdit → String
  | .assign => "addconfig"
  | .remove => "rmconfig"

def ConfigurationEdit.operation (options : ManageDocumentOperation) :
    ConfigurationEdit → BuilderOperation
  | .assign => .addConfiguration (named options.configuration.text)
  | .remove => .removeConfiguration (named options.configuration.text)

/-- The payload of `assignConfiguration` and `removeConfiguration` of the file-system
dispatcher; it names no collection. -/
def configurationPayload (clock : Clock) (edit : ConfigurationEdit)
    (options : ManageDocumentOperation) (store : Store) : Except Failure Value := do
  confirm (options.operation = edit.name)
  let document ← selectDocument options store
  let record ← ovlDatabaseRecord (clock 0) document
  let updated := builderEdit (clock 1) (edit.operation options) record
  let id ← getObjectID updated
  .ok (.object [("filter", id), ("document", .object updated)])

/-- `assignConfiguration` and `removeConfiguration`, up to the composition that they
read afterwards. -/
def rewriteConfiguration (clock : Clock) (edit : ConfigurationEdit)
    (options : ManageDocumentOperation) : InPlace Failure Store Value := do
  let payload ← fetch (configurationPayload clock edit options)
  writeDocument (clock 2) payload

/-! ## Calls -/

inductive ApiCall where
  | writeDocument (options : ManageDocumentOperation) (conf : Text)
  | overwriteVersion (collection version entity : String) (data : Except Failure Text)
  | management (call : ManagementCall)
  | configuration (edit : ConfigurationEdit) (options : ManageDocumentOperation)

/-- What a call does to the store. -/
def ApiCall.perform (c : Conversions) (clock : Clock) : ApiCall → InPlace Failure Store Unit
  | .writeDocument options conf => do
      let _ ← detail.writeDocument c clock options conf
  | .overwriteVersion collection version entity data => do
      let _ ← ConfigurationInterface.overwriteVersion c clock collection version entity data
  | .management call => do
      let _ ← call.perform c clock
  | .configuration edit options => do
      let _ ← rewriteConfiguration clock edit options

/-- The moment of the write and its payload. -/
def ApiCall.prepared (c : Conversions) (clock : Clock) (store : Store) :
    ApiCall → Except Failure (Environment × Value)
  | .writeDocument options conf => do
      let written ← writePayload c clock options conf
      .ok (clock 9, written.1)
  | .overwriteVersion collection version entity data => do
      let options ← versionOptions .db collection version entity
      let buffer ← detail.readDocument c options store
      let data ← data
      let dbRecord ← buffer.document
      let updated ← withNewData c clock data dbRecord
      let written ← writePayload c (clock.drop 2)
        { options with operation := "overwritedocument" } (.json (.object updated))
      .ok (clock 11, written.1)
  | .management call => do
      let r ← call.rewriting
      let payload ← r.payload c clock store
      .ok (clock 11, payload)
  | .configuration edit options => do
      let payload ← configurationPayload clock edit options store
      .ok (clock 2, payload)

/-- A call is at most one write of the provider. -/
theorem after_perform (c : Conversions) (clock : Clock) (call : ApiCall) (store : Store) :
    after (call.perform c clock) store =
      match call.prepared c clock store with
      | .ok write => writeStep store write
      | .error _ => store := by
  cases call with
  | writeDocument options conf =>
      rw [ApiCall.perform, after_discard, after_writeDocument_detail, ApiCall.prepared]
      cases writePayload c clock options conf <;> rfl
  | overwriteVersion collection version entity data =>
      rw [ApiCall.perform, after_discard, ConfigurationInterface.overwriteVersion,
        ApiCall.prepared, after_lift_bind]
      cases versionOptions .db collection version entity with
      | error e => rfl
      | ok options =>
          dsimp only
          rw [after_fetch_bind]
          cases hread : detail.readDocument c options store with
          | error e => simp [bind, Except.bind, hread]
          | ok buffer =>
              dsimp only
              rw [after_lift_bind]
              cases data with
              | error e => simp [bind, Except.bind, hread]
              | ok data =>
                  dsimp only
                  rw [after_lift_bind]
                  cases hrecord : buffer.document with
                  | error e => simp [bind, Except.bind, hread, hrecord]
                  | ok dbRecord =>
                      dsimp only
                      rw [after_lift_bind]
                      cases hdata : withNewData c clock data dbRecord with
                      | error e => simp [bind, Except.bind, hread, hrecord, hdata]
                      | ok updated =>
                          dsimp only
                          rw [after_writeDocument_detail]
                          simp only [bind, Except.bind, hread, hrecord, hdata]
                          cases writePayload c (clock.drop 2)
                            { options with operation := "overwritedocument" }
                            (.json (.object updated)) <;> rfl
  | management call =>
      rw [ApiCall.perform, after_discard, ApiCall.prepared, perform_eq, after_lift_bind]
      cases call.rewriting with
      | error e => rfl
      | ok r =>
          dsimp only
          rw [after_run]
          simp only [bind, Except.bind]
          cases r.payload c clock store <;> rfl
  | configuration edit options =>
      rw [ApiCall.perform, after_discard, ApiCall.prepared, rewriteConfiguration,
        after_fetch_bind]
      simp only [bind, Except.bind]
      cases configurationPayload clock edit options store <;> rfl

end ArtdaqDatabase
