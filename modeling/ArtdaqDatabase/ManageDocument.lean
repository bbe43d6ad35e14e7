import ArtdaqDatabase.EditEffects
import ArtdaqDatabase.FileSystemProvider

/-!
# Documents of the management interface

`detail::write_document` and `detail::read_document`, with the options that
select a document and that a write applies to it, and the operations that read a
document, edit it and write it back.  The operations differ in the options of
their three steps and in the edit.

A text is either the text of a JSON value or another text; names are taken to be
printed in JSON as they are, and a query filter to be one JSON value.  The
conversions between the data formats are parameters.
-/

namespace ArtdaqDatabase

open OrderedTable InPlaceUpdate

/-! ## Texts and formats -/

/-- The content of a text buffer. -/
inductive Text where
  | json (v : Value)
  | other (text : String)
  deriving DecidableEq

/-- `JSONDocument::readJson`. -/
def Text.document : Text → Except Failure Object
  | .json (.object o) => .ok o
  | _ => .error (.invalidArgument "Failed reading JSON: Invalid json")

/-- `data_format_t`. -/
inductive DataFormat where
  | unknown | origin | json | fhicl | gui | db | xml | csv
  deriving DecidableEq

/-- `to_data_format`. -/
def toDataFormat (f : String) : Except Failure DataFormat := do
  confirm (f ≠ "")
  .ok <|
    if f = "fhicl" then .fhicl
    else if f = "json" then .json
    else if f = "gui" then .gui
    else if f = "db" then .db
    else if f = "xml" then .xml
    else if f = "origin" then .origin
    else if f = "csv" then .csv
    else .unknown

/-- The conversions between the formats, each of which may refuse its argument. -/
structure Conversions where
  jsonGuiToDb : Text → Option Text
  jsonDbToGui : Object → Option Text
  fhiclData : Text → Option Object
  fhiclComments : Text → Option (List Value)
  fhiclWriteData : Object → Option Text
  xmlToJson : Text → Option Text
  jsonToXml : Text → Option Text
  xmlWrite : Object → Option Text
  /-- The reading of `{"data":` before and a brace after a text that is no JSON value. -/
  wrapData : String → Option Object

def convertOrThrow {α : Type} (text : String) : Option α → Except Failure α
  | some a => .ok a
  | none => .error (.runtimeError text)

/-- The moments of a call: every construction and every edit has its own. -/
abbrev Clock := ℕ → Environment

def Clock.drop (clock : Clock) (n : ℕ) : Clock := fun k => clock (k + n)

/-! ## Options -/

/-- The setters of the options refuse an empty text. -/
@[ext]
structure OptionText where
  text : String
  text_ne : text ≠ ""

instance : DecidableEq OptionText := fun option other =>
  decidable_of_iff (option.text = other.text) OptionText.ext_iff.symm

def notprovided : OptionText := ⟨"notprovided", by decide⟩

/-- `ManageDocumentOperation`; a query filter of `none` is one not provided. -/
structure ManageDocumentOperation where
  operation : String
  format : DataFormat
  collection : OptionText := notprovided
  queryFilter : Option Value := none
  version : OptionText := notprovided
  entity : OptionText := notprovided
  configuration : OptionText := notprovided
  run : OptionText := notprovided
  deriving DecidableEq

/-- `ManageAliasesOperation`. -/
structure ManageAliasesOperation where
  operation : String
  format : DataFormat
  collection : OptionText := notprovided
  queryFilter : Option Value := none
  version : OptionText := notprovided
  versionAlias : OptionText := notprovided
  entity : OptionText := notprovided
  configuration : OptionText := notprovided
  run : OptionText := notprovided
  deriving DecidableEq

/-- A criterion of the query filter, if the option is provided. -/
def criterion (key : String) (option : OptionText) : Object :=
  if option = notprovided then [] else [(key, .string option.text)]

/-- `ManageDocumentOperation::query_filter_to_JsonData`. -/
def ManageDocumentOperation.queryFilterToJsonData (options : ManageDocumentOperation) : Value :=
  options.queryFilter.getD <| .object <|
    criterion "version" options.version ++ criterion "entities.name" options.entity ++
      if options.operation = "addconfig" then []
      else criterion "configurations.name" options.configuration

/-- `ManageAliasesOperation::query_filter_to_JsonData`. -/
def ManageAliasesOperation.queryFilterToJsonData (options : ManageAliasesOperation) : Value :=
  options.queryFilter.getD <| .object <|
    criterion "entities.name" options.entity ++ criterion "version" options.version ++
      (if options.operation = "addconfig" then []
        else criterion "configurations.name" options.configuration) ++
      (if options.operation = "addveralias" then []
        else criterion "aliases.active.name" options.versionAlias) ++
      if options.operation = "addrun" then [] else criterion "runs.name" options.run

/-- An option that `readJsonData` takes from the query filter. -/
def fromFilter (key : String) (filter : Object) (option : OptionText) : OptionText :=
  match stringAt key filter with
  | .ok text => if htext : text = "" then option else ⟨text, htext⟩
  | .error _ => option

/-- `ManageDocumentOperation::readJsonData` on what `to_JsonData` of the aliases
options prints; the entity is printed only in the filter. -/
def ManageAliasesOperation.toManageDocument (options : ManageAliasesOperation) :
    Except Failure ManageDocumentOperation := do
  let filter ← options.queryFilterToJsonData.getObject
  confirm (options.format ≠ .unknown)
  .ok
    { operation := options.operation
      format := options.format
      collection := options.collection
      queryFilter := if filter = [] then none else some (.object filter)
      version := fromFilter "version" filter options.version
      entity := fromFilter "entities.name" filter notprovided
      configuration := fromFilter "configurations.name" filter options.configuration
      run := fromFilter "runs.name" filter options.run }

/-! ## Reading -/

/-- The collection is named by the filter, else by the payload. -/
def readCollectionName (payload : Value) : Except Failure String := do
  let name := (childText "collection" (.object (writeFilter payload))).toOption.getD ""
  let name ← if name = "" then childText "collection" payload else .ok name
  confirm (name ≠ "")
  .ok name

/-- The text of a missing file is empty, and no JSON document. -/
def readFile (c : Collection) (oid : String) : Except Failure Object :=
  match c.stored oid with
  | some document => .ok document
  | none => .error (.invalidArgument "Failed reading JSON: Empty JSON buffer")

/-- `StorageProvider::readDocument`: the documents that a search selects. -/
def readDocuments (payload : Value) (store : Store) : Except Failure (List Object) := do
  let name ← readCollectionName payload
  let c := collectionAt name store
  let oids ← findDocumentIDs c.index (writeFilter payload)
  oids.mapM (readFile c)

/-- `compareDocumentVersions` inside `std::max_element`. -/
def laterVersion (largest document : Object) : Except Failure Object := do
  let a ← childText "version" (.object largest)
  let b ← childText "version" (.object document)
  .ok (if a < b then document else largest)

/-- `filesystem::readDocument`: of several documents the first with the largest version. -/
def readDocument (payload : Value) (store : Store) : Except Failure Object := do
  let documents ← readDocuments payload store
  match documents with
  | [] => .error (.runtimeError "No documents found.")
  | document :: rest => rest.foldlM laterVersion document

/-- The text of the member `origin.format`. -/
def originFormat (document : Object) : Except Failure String := do
  let found ← findChildValue ["origin", "format"] (.object document)
  documentValue (.object [("origin.format", found)])

/-- The text of a document in a format other than `origin`. -/
def renderDocument (c : Conversions) (document : Object) : DataFormat → Except Failure Text
  | .gui => convertOrThrow "DB to GUI data convertion failed" (c.jsonDbToGui document)
  | .json => do
      let doc ← objectAt "document" document
      let data ← objectAt "data" doc
      let _ ← JsonWriter.write data
      .ok (.json (.object data))
  | .unknown => .error (.runtimeError "Invalid data format")
  | .fhicl => do
      let doc ← objectAt "document" document
      convertOrThrow "Unable to reverse fhicl-to-json convertion" (c.fhiclWriteData doc)
  | .xml => do
      let doc ← objectAt "document" document
      convertOrThrow "Unable to reverse fhicl-to-xml convertion" (c.xmlWrite doc)
  | .db | .origin | .csv => .ok (.json (.object document))

/-- The search payload of `read_document`. -/
def searchPayload (options : ManageDocumentOperation) : Value :=
  .object
    [("filter", options.queryFilterToJsonData), ("collection", .string options.collection.text)]

/-- What the options select. -/
def selectDocument (options : ManageDocumentOperation) (store : Store) : Except Failure Object :=
  readDocument (searchPayload options) store

namespace detail

/-- `detail::read_document`. -/
def readDocument (c : Conversions) (options : ManageDocumentOperation) (store : Store) :
    Except Failure Text := do
  confirm (options.operation = "load")
  let document ← selectDocument options store
  confirm (options.format ≠ .unknown)
  if options.format = .origin then
    let text ← originFormat document
    let format ← toDataFormat text
    renderDocument c document format
  else renderDocument c document options.format

end detail

/-! ## Building a document from data -/

/-- `replaceChild` with a child found under the same path; a missing one is skipped. -/
def importChild (path : List String) (data : Value) (record : Object) : Object :=
  match findChildValue path data, path with
  | .ok found, [key] => set key found record
  | .ok found, [key, member] =>
      match objectAt key record with
      | .ok o => set key (.object (set member found o)) record
      | .error _ => record
  | _, _ => record

/-- `JSONDocumentBuilder::_importUserData`: data without a member `document.data`
become that member themselves. -/
def importUserData (data record : Object) : Except Failure Object := do
  let v : Value := .object data
  let record := importChild ["document", "metadata"] v record
  let record := importChild ["changelog"] v record
  let record := importChild ["origin"] v record
  let record := importChild ["collection"] v record
  let record := importChild ["attachments"] v record
  match findChildValue ["document", "data"] v with
  | .ok _ => .ok (importChild ["document", "data"] v record)
  | .error _ => do
      let only ← getPayloadValueForKey "data" v
      let document ← objectAt "document" record
      .ok (set "document" (.object (set "data" only document)) record)

/-- `JSONDocumentBuilder::createFromData`. -/
def createFromData (template refresh : Environment) (data : Object) : Except Failure Object := do
  let record ← ovlDatabaseRecord template []
  let record ← importUserData data record
  ovlDatabaseRecord refresh record

/-- A JSON object with the text as its member `data`. -/
def wrapData (c : Conversions) : Text → Except Failure Object
  | .json v => .ok [("data", v)]
  | .other text =>
      match c.wrapData text with
      | some o => .ok o
      | none => .error (.invalidArgument "Failed reading JSON: Invalid json")

/-- `fhicl_to_ast`. -/
def fhiclToAst (c : Conversions) (env : Environment) (conf : Text) (filename : String) :
    Except Failure Object := do
  let comments ← convertOrThrow "FHICL to JSON convertion failed" (c.fhiclComments conf)
  let data ← convertOrThrow "FHICL to JSON convertion failed" (c.fhiclData conf)
  .ok
    [("document", .object data), ("comments", .array comments),
      ("origin", .object
        [("format", .string "fhicl"), ("name", .string filename),
          ("source", .string "fhicl_to_json"), ("timestamp", .string env.timestamp)]),
      ("version", .string "notprovided"), ("entities", .array []),
      ("configurations", .array [])]

/-! ## Writing -/

/-- `JSONDocumentBuilder::getObjectID`. -/
def getObjectID (record : Object) : Except Failure Value := do
  let id ← valueAt "_id" record
  .ok (.object [("_id", id)])

/-- The record to write, the filter of the write and the text returned. -/
structure Draft where
  record : Object
  filter : Value
  returned : Text

/-- A draft from data alone; the query filter of the options is the filter. -/
def draftFromData
    (clock : Clock) (options : ManageDocumentOperation) (data : Object) (returned : Text) :
    Except Failure Draft := do
  let record ← createFromData (clock 0) (clock 1) data
  .ok ⟨record, options.queryFilterToJsonData, returned⟩

/-- A draft from a database record; the record brings its own id. -/
def draftFromRecord (record : Object) (returned : Text) : Except Failure Draft := do
  let id ← getObjectID record
  .ok ⟨record, id, returned⟩

/-- The part of `write_document` that depends on the data format. -/
def draftDocument (c : Conversions) (clock : Clock) (options : ManageDocumentOperation)
    (conf : Text) : Except Failure Draft :=
  match options.format with
  | .json => do
      let data ← wrapData c conf
      draftFromData clock options data conf
  | .fhicl => do
      let ast ← fhiclToAst c (clock 0) conf options.entity.text
      let record ← ovlDatabaseRecord (clock 1) ast
      .ok ⟨record, options.queryFilterToJsonData, conf⟩
  | .xml => do
      let json ← convertOrThrow "xml" (c.xmlToJson conf)
      let xml ← convertOrThrow "Unable to reverse xml-to-json convertion" (c.jsonToXml json)
      let data ← json.document
      draftFromData clock options data xml
  | .gui => do
      let db ← convertOrThrow "GUI to DB data convertion failed" (c.jsonGuiToDb conf)
      let data ← db.document
      let record ← ovlDatabaseRecord (clock 0) data
      draftFromRecord
        (builderEdits record
          [(clock 1, .newObjectID), (clock 2, .removeAllConfigurations),
            (clock 3, .removeAllEntities)])
        db
  | .db => do
      let data ← conf.document
      let record ← ovlDatabaseRecord (clock 0) data
      let frozen ← isReadonlyOrDeleted record
      draftFromRecord
        (if frozen && options.operation = "store" then builderEdit (clock 1) .newObjectID record
          else record)
        conf
  | _ => .error (.runtimeError "Invalid data format")

/-- The edits that carry the options into the record; the checks for options that
are not provided are commented out in the source, except for the run. -/
def optionEdits (clock : Clock) (options : ManageDocumentOperation) :
    List (Environment × BuilderOperation) :=
  [(clock 0, .addConfiguration (named options.configuration.text)),
    (clock 1, .setVersion (named options.version.text)),
    (clock 2, .setCollection (.object [("collection", .string options.collection.text)])),
    (clock 3, .addEntity (named options.entity.text))] ++
    if options.run = notprovided then [] else [(clock 4, .addRun (named options.run.text))]

def applyOptions (clock : Clock) (options : ManageDocumentOperation) (record : Object) :
    Except Failure Object := do
  let frozen ← isReadonlyOrDeleted record
  .ok (if frozen then record else builderEdits record (optionEdits clock options))

/-- `insert_payload`, where `replaceChild` unwraps a member `payload` of the record. -/
def insertPayload (options : ManageDocumentOperation) (record : Object) (filter : Value) :
    Except Failure Value := do
  let document ← getPayloadValueForKey "document" (.object record)
  .ok
    (.object
      [("document", document), ("filter", filter),
        ("collection", .string options.collection.text)])

/-- The payload that `write_document` hands to the provider. -/
def writePayload (c : Conversions) (clock : Clock) (options : ManageDocumentOperation)
    (conf : Text) : Except Failure (Value × Text) := do
  confirm (options.operation = "store" || options.operation = "overwritedocument")
  if conf = .other "" then
    .error (.runtimeError
      "Invalid configuration document; configuration document is empty.")
  else
    let draft ← draftDocument c clock options conf
    let record ← applyOptions (clock.drop 4) options draft.record
    let payload ← insertPayload options record draft.filter
    .ok (payload, draft.returned)

namespace detail

/-- `detail::write_document`. -/
def writeDocument (c : Conversions) (clock : Clock) (options : ManageDocumentOperation)
    (conf : Text) : InPlace Failure Store Text := do
  let written ← lift (writePayload c clock options conf)
  let _ ← ArtdaqDatabase.writeDocument (clock 9) written.1
  return written.2

/-! ## Read, edit, write, read -/

/-- The body that the management operations share. -/
def rewriteDocument (c : Conversions) (clock : Clock)
    (readOptions writeOptions resultOptions : ManageDocumentOperation)
    (edit : BuilderOperation) : InPlace Failure Store Text := do
  let document ← fetch (readDocument c readOptions)
  let data ← lift document.document
  let record ← lift (ovlDatabaseRecord (clock 0) data)
  let updated := builderEdit (clock 1) edit record
  let _ ← writeDocument c (clock.drop 2) writeOptions (.json (.object updated))
  fetch (readDocument c resultOptions)

/-- The options of a step; the entity and the query filter are not handed on. -/
def stepOptions (options : ManageDocumentOperation) (operation : String) (format : DataFormat) :
    ManageDocumentOperation :=
  { options with
    operation := operation
    format := format
    entity := notprovided
    queryFilter := none }

/-- An operation that finds its document without the entity. -/
def rewriteWithoutEntity (c : Conversions) (clock : Clock) (options : ManageDocumentOperation)
    (operation writeOperation : String) (edit : BuilderOperation) : InPlace Failure Store Text := do
  lift (confirm (options.operation = operation))
  rewriteDocument c clock (stepOptions options "load" .db)
    (stepOptions options writeOperation .db) (stepOptions options "load" options.format) edit

def addEntity (c : Conversions) (clock : Clock) (options : ManageDocumentOperation) :
    InPlace Failure Store Text :=
  rewriteWithoutEntity c clock options "addentity" "store"
    (.addEntity (named options.entity.text))

def removeEntity (c : Conversions) (clock : Clock) (options : ManageDocumentOperation) :
    InPlace Failure Store Text :=
  rewriteWithoutEntity c clock options "rmentity" "store"
    (.removeEntity (named options.entity.text))

def markDocumentReadonly (c : Conversions) (clock : Clock) (options : ManageDocumentOperation) :
    InPlace Failure Store Text :=
  rewriteWithoutEntity c clock options "markreadonly" "overwritedocument" .markReadonly

def markDocumentDeleted (c : Conversions) (clock : Clock) (options : ManageDocumentOperation) :
    InPlace Failure Store Text :=
  rewriteWithoutEntity c clock options "markdeleted" "overwritedocument" .markDeleted

def addVersionAlias (c : Conversions) (clock : Clock) (options : ManageAliasesOperation) :
    InPlace Failure Store Text := do
  lift (confirm (options.operation = "addveralias"))
  let newOptions ← lift options.toManageDocument
  rewriteDocument c clock
    { newOptions with operation := "load", format := .db }
    { newOptions with operation := "store", format := .db }
    { newOptions with operation := "load", format := options.format }
    (.addAlias (named options.versionAlias.text))

/-- Unlike its siblings `remove_version_alias` reads in the format of the caller. -/
def removeVersionAlias (c : Conversions) (clock : Clock) (options : ManageAliasesOperation) :
    InPlace Failure Store Text := do
  lift (confirm (options.operation = "rmveralias"))
  let newOptions ← lift options.toManageDocument
  rewriteDocument c clock
    { newOptions with operation := "load" }
    { newOptions with operation := "store", format := .db }
    { newOptions with operation := "load", format := options.format, queryFilter := none }
    (.removeAlias (named options.versionAlias.text))

end detail

end ArtdaqDatabase
