import ArtdaqDatabase.PrintedDecimals
import ArtdaqDatabase.ManageDocument
import ArtdaqDatabase.FhiclText

/-!
# Options as JSON text

`ManageDocumentOperation` with the texts of its options, and the two directions between
them and a JSON text.  The search filter is written beside the options that it is made
from, and what is read from it goes over what was read from the options.
-/

namespace ArtdaqDatabase

open OrderedTable

namespace Options

/-- `to_string` of a data format. -/
def formatText : DataFormat → String
  | .unknown => "unknown"
  | .fhicl => "fhicl"
  | .json => "json"
  | .gui => "gui"
  | .db => "db"
  | .xml => "xml"
  | .origin => "origin"
  | .csv => "csv"

theorem toDataFormat_formatText (format : DataFormat) :
    toDataFormat (formatText format) = .ok format := by
  cases format <;> rfl

/-! ## The options and their setters -/

/-- The operation of a freshly constructed object. -/
def readdocument : OptionText := ⟨"load", by decide⟩

/-- `ManageDocumentOperation`, with the members that go through JSON.  The setter of the query
filter takes a pair of marks off its text, so this text can be empty. -/
structure ManageDocumentOperation where
  operation : OptionText := readdocument
  format : DataFormat := .unknown
  collection : OptionText := notprovided
  queryFilter : String := "notprovided"
  version : OptionText := notprovided
  entity : OptionText := notprovided
  run : OptionText := notprovided
  configuration : OptionText := notprovided
  sourceFileName : OptionText := notprovided
  deriving DecidableEq

/-- The texts that are set one by one. -/
def ManageDocumentOperation.texts (options : ManageDocumentOperation) : List OptionText :=
  [options.operation, options.collection, options.version, options.entity, options.run,
    options.configuration, options.sourceFileName]

/-- The setter `queryFilter`. -/
def ManageDocumentOperation.setQueryFilter (payload : String)
    (options : ManageDocumentOperation) : Except Failure ManageDocumentOperation := do
  confirm (payload ≠ "")
  return { options with queryFilter := dequote payload }

/-- The getter `format`. -/
def ManageDocumentOperation.getFormat (options : ManageDocumentOperation) :
    Except Failure DataFormat := do
  confirm (options.format ≠ .unknown)
  return options.format

/-- The getter `queryFilter`. -/
def ManageDocumentOperation.getQueryFilter (options : ManageDocumentOperation) :
    Except Failure String := do
  confirm (options.queryFilter ≠ "")
  return options.queryFilter

/-- A member is written if its option is provided. -/
def putProvided (key : String) (option : OptionText) (ast : Object) : Object :=
  if option = notprovided then ast else set key (.string option.text) ast

/-! ## Writing -/

section

variable (d : DecimalFormat)

def readOrThrow (text message : String) : Except Failure Object := do
  match ← d.read text with
  | some ast => return ast
  | none => .error (.runtimeError message)

def emptyJson : String :=
  "\x7b \x7d"

/-- `OperationBase::query_filter_to_JsonData`. -/
def ManageDocumentOperation.baseFilterToJsonData (options : ManageDocumentOperation) :
    Except Failure String := do
  let queryFilter ← options.getQueryFilter
  return if queryFilter ≠ "notprovided" then queryFilter else emptyJson

/-- The members of a search object that is made from the options, over those in `ast`. -/
def ManageDocumentOperation.criteria (options : ManageDocumentOperation) (ast : Object) : Object :=
  let ast := putProvided "version" options.version ast
  let ast := putProvided "entities.name" options.entity ast
  if options.operation.text = "addconfig" then ast
  else putProvided "configurations.name" options.configuration ast

/-- `ManageDocumentOperation::query_filter_to_JsonData`. -/
def ManageDocumentOperation.queryFilterToJsonData (options : ManageDocumentOperation) :
    Except Failure String := do
  let queryFilter ← options.getQueryFilter
  if queryFilter ≠ "notprovided" then
    return queryFilter
  else
    let docAST ← readOrThrow d (← options.baseFilterToJsonData)
      "Unable to query_filter_to_JsonData()."
    let docAST := options.criteria docAST
    if docAST = [] then return emptyJson else d.write docAST

/-- The members that `OperationBase::writeJsonData` writes. -/
def ManageDocumentOperation.baseMembers (options : ManageDocumentOperation) (filter : Object)
    (format : DataFormat) : Object :=
  set "dataformat" (.string (formatText format)) <|
    set "collection" (.string options.collection.text) <|
      set "operation" (.string options.operation.text) <|
        set "filter" (.object filter) []

/-- `OperationBase::writeJsonData`. -/
def ManageDocumentOperation.baseWriteJsonData (options : ManageDocumentOperation) :
    Except Failure String := do
  let queryFilterAST ← readOrThrow d (← options.queryFilterToJsonData d)
    "Unable to readquery_filter_to_JsonData()."
  let format ← options.getFormat
  d.write (options.baseMembers queryFilterAST format)

/-- The members that `ManageDocumentOperation::writeJsonData` adds. -/
def ManageDocumentOperation.addMembers (options : ManageDocumentOperation) (ast : Object) :
    Object :=
  let ast := putProvided "configuration" options.configuration ast
  let ast := putProvided "source" options.sourceFileName ast
  let ast := putProvided "entity" options.entity ast
  let ast := putProvided "version" options.version ast
  putProvided "run" options.run ast

/-- `ManageDocumentOperation::writeJsonData`. -/
def ManageDocumentOperation.writeJsonData (options : ManageDocumentOperation) :
    Except Failure String := do
  let docAST ← readOrThrow d (← options.baseWriteJsonData d)
    "Unable to read query_filter_to_JsonData()."
  d.write (options.addMembers docAST)

/-! ## Reading -/

/-- A format that is read; every other text stands for an unknown one. -/
def formatFrom (ast : Object) (format : DataFormat) : DataFormat :=
  match stringAt "dataformat" ast >>= toDataFormat with
  | .ok given => given
  | .error _ => format

/-- The search filter that is read, unless it is empty. -/
def filterFrom (ast : Object) (options : ManageDocumentOperation) : ManageDocumentOperation :=
  let update := do
    let filterObject ← objectAt "filter" ast
    if filterObject = [] then
      return options
    else
      let filterString ← d.write filterObject
      options.setQueryFilter filterString
  match update with
  | .ok updated => updated
  | .error _ => options

/-- The members that `OperationBase::readJsonData` takes. -/
def ManageDocumentOperation.baseReadMembers (ast : Object) (options : ManageDocumentOperation) :
    ManageDocumentOperation :=
  filterFrom d ast
    { options with
      operation := fromFilter "operation" ast options.operation
      format := formatFrom ast options.format
      collection := fromFilter "collection" ast options.collection }

/-- `OperationBase::readJsonData`. -/
def ManageDocumentOperation.baseReadJsonData (data : String) (options : ManageDocumentOperation) :
    Except Failure ManageDocumentOperation := do
  confirm (data ≠ "")
  confirm (data ≠ "notprovided")
  let ast ← readOrThrow d data "OperationBase: Unable to read JSON buffer."
  return options.baseReadMembers d ast

/-- The options that stand beside the filter. -/
def ManageDocumentOperation.readOptions (ast : Object) (options : ManageDocumentOperation) :
    ManageDocumentOperation :=
  { options with
    configuration := fromFilter "configuration" ast options.configuration
    version := fromFilter "version" ast options.version
    entity := fromFilter "entity" ast options.entity
    run := fromFilter "run" ast options.run
    sourceFileName := fromFilter "source" ast options.sourceFileName }

/-- What the filter says goes over the options. -/
def ManageDocumentOperation.readFilter (filter : Object) (options : ManageDocumentOperation) :
    ManageDocumentOperation :=
  { options with
    queryFilter := if filter = [] then "notprovided" else options.queryFilter
    version := fromFilter "version" filter options.version
    entity := fromFilter "entities.name" filter options.entity
    configuration := fromFilter "configurations.name" filter options.configuration
    run := fromFilter "runs.name" filter options.run }

/-- The members that `ManageDocumentOperation::readJsonData` takes. -/
def ManageDocumentOperation.readMembers (ast : Object) (options : ManageDocumentOperation) :
    ManageDocumentOperation :=
  match objectAt "filter" ast with
  | .ok filter => (options.readOptions ast).readFilter filter
  | .error _ => options.readOptions ast

/-- `ManageDocumentOperation::readJsonData`. -/
def ManageDocumentOperation.readJsonData (data : String) (options : ManageDocumentOperation) :
    Except Failure ManageDocumentOperation := do
  confirm (data ≠ "")
  let base ← options.baseReadJsonData d data
  let dataAST ← readOrThrow d data "ManageDocumentOperation: Unable to read JSON buffer."
  return base.readMembers dataAST

/-- The search object that the query filter denotes. -/
def ManageDocumentOperation.searchObject (options : ManageDocumentOperation) :
    Except Failure (Option Object) :=
  options.queryFilterToJsonData d >>= d.read

end

end Options

end ArtdaqDatabase
