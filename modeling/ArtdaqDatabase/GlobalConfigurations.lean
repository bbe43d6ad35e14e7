import ArtdaqDatabase.ApiCalls
import ArtdaqDatabase.CompositionDiff
import ArtdaqDatabase.CompositionQueries
import ArtdaqDatabase.FallingMultimap

/-!
# Global configurations

A global configuration, or composition, is a name that the documents of its
members carry.  The interface stores one by a list of operations, each of which
edits one document and reads the composition afterwards.
-/

namespace ArtdaqDatabase

open OrderedTable InPlaceUpdate InvertedIndex SortedUnique FallingMultimap

/-! ## Options -/

/-- An option that is set unless the text is empty. -/
def provided (text : String) : OptionText :=
  if htext : text = "" then notprovided else ⟨text, htext⟩

/-- The options read from `buildAssignOperation` or `buildUnassignOperation`. -/
def memberOptions (edit : ConfigurationEdit) (configuration : OptionText) (member : VersionInfo) :
    ManageDocumentOperation where
  operation := edit.name
  format := .gui
  collection := provided member.configuration
  queryFilter := some (.object (versionFilter member.version member.entity))
  version := provided member.version
  entity := provided member.entity
  configuration := configuration

/-- The search of `findGlobalConfigurations` and `loadGlobalConfiguration`. -/
def configurationSearch (configuration : OptionText) : Object :=
  criterion "configurations.name" configuration

/-! ## Operations -/

/-- `filesystem::configurationComposition`. -/
def compositionQueries (search : Object) (store : Store) : Except Failure (List Value) := do
  let queries ← configurationComposition search store
  if queries = [] then .error (.runtimeError "No search filters were found.")
  else .ok queries

/-- `assign_configuration` and `remove_configuration`: the edit, and the composition
after it. -/
def editConfiguration (clock : Clock) (edit : ConfigurationEdit)
    (options : ManageDocumentOperation) : InPlace Failure Store (List Value) := do
  let _ ← rewriteConfiguration clock edit options
  fetch (compositionQueries [("configurations.name", .string options.configuration.text)])

def assignMember (configuration : OptionText) (member : Clock × VersionInfo) :
    InPlace Failure Store Unit := do
  let _ ← editConfiguration member.1 .assign (memberOptions .assign configuration member.2)

def unassignMember (configuration : OptionText) (member : Clock × VersionInfo) :
    InPlace Failure Store Unit := do
  let _ ← editConfiguration member.1 .remove (memberOptions .remove configuration member.2)

/-- `create_configuration`: the first operation that throws ends it. -/
def createConfiguration (configuration : OptionText) (members : List (Clock × VersionInfo)) :
    InPlace Failure Store Unit :=
  members.forM (assignMember configuration)

/-! ## Finding and loading -/

/-- `SearchIndex::getConfigurationAssignedTimestamps` on the parsed search. -/
def getConfigurationAssignedTimestamps (index : SearchIndex) (search : Object) : List String :=
  posting ((stringAt "configurations.name" search).toOption.getD "") index.configurationsAssigned

/-- The whole seconds of a time in milliseconds, cut off towards zero and stored without
a sign. -/
def timestampKey (time : ℤ) : ℕ :=
  (time.tdiv 1000 % 2 ^ 64).toNat

/-- The times at which a configuration was assigned, each under its name; `toTimepoint`
reads a timestamp. -/
def configurationKeys (toTimepoint : String → Except Failure ℤ) (index : SearchIndex)
    (name : String) : Except Failure (List (String × ℕ)) := do
  let timestamps := getConfigurationAssignedTimestamps index [("configurations.name", .string name)]
  let times ← timestamps.mapM toTimepoint
  .ok (times.map fun time => (name, timestampKey time))

/-- What one collection adds to `config_timestamps`. -/
def assignedKeys (toTimepoint : String → Except Failure ℤ) (search : Object)
    (entry : String × Collection) : Except Failure (List (String × ℕ)) := do
  let pairs ← findAllGlobalConfigurations entry.2.index search
  let keys ← pairs.mapM fun pair => configurationKeys toTimepoint entry.2.index (ofLex pair).1
  .ok keys.flatten

/-- `config_timestamps`, a set of times for each name. -/
def configTimestamps (keys : List (String × ℕ)) : Table String (List ℕ) :=
  keys.foldl (fun t p => insertPosting p.1 p.2 t) []

/-- `timestamp_configs`, filled in the order of the names with the greatest time of each. -/
def timestampConfigs (t : Table String (List ℕ)) : List (ℕ × String) :=
  emplaceAll ((sortUnique (t.map Prod.fst)).map fun name =>
    ((posting name t).getLast?.getD 0, name))

/-- A query for the composition of a configuration. -/
def compositionSearch (name : String) : Value :=
  .object
    [("dbprovider", .string "filesystem"), ("dataformat", .string "gui"),
      ("operation", .string "confcomposition"),
      ("filter", .object [("configurations.name", .string name)])]

/-- `StorageProvider::findConfigurations` on the parsed search. -/
def StorageProvider.findConfigurations (toTimepoint : String → Except Failure ℤ)
    (search : Object) (store : Store) : Except Failure (List Value) := do
  let keys ← store.mapM (assignedKeys toTimepoint search)
  .ok ((timestampConfigs (configTimestamps keys.flatten)).map fun config =>
    compositionSearch config.2)

/-- The configuration that a query asks for. -/
def searchedConfiguration (query : Value) : Except Failure String := do
  let query ← query.getObject
  let filter ← objectAt "filter" query
  stringAt "configurations.name" filter

/-- The queries whose configuration was not seen before, each under its name. -/
def newConfigurations : List String → List Value → Except Failure (List Value)
  | _, [] => .ok []
  | seen, query :: rest => do
      let name ← searchedConfiguration query
      confirm (name ≠ "")
      if name ∈ seen then newConfigurations seen rest
      else
        let kept ← newConfigurations (name :: seen) rest
        .ok (.object [("name", .string name), ("query", query)] :: kept)

/-- `filesystem::findConfigurations` on the parsed search. -/
def findConfigurations (toTimepoint : String → Except Failure ℤ) (search : Object)
    (store : Store) : Except Failure (List Value) := do
  let queries ← StorageProvider.findConfigurations toTimepoint search store
  newConfigurations ["notprovided"] queries

namespace ConfigurationInterface

/-- `findGlobalConfigurations`, which reads the names from the queries. -/
def findGlobalConfigurations (toTimepoint : String → Except Failure ℤ) (search : OptionText)
    (store : Store) : Except Failure (Finset String) := do
  let results ← findConfigurations toTimepoint (configurationSearch search) store
  let names ← results.mapM fun result => do
    let result ← result.getObject
    let query ← objectAt "query" result
    searchedConfiguration (.object query)
  .ok names.toFinset

/-- The member that a query of `findVersions` names. -/
def toVersionInfo (query : Value) : Except Failure VersionInfo := do
  let query ← query.getObject
  let configuration ← stringAt "collection" query
  let filter ← objectAt "filter" query
  let version ← stringAt "version" filter
  let entity ← stringAt "entities.name" filter
  .ok ⟨configuration, version, entity⟩

/-- One query of the composition, handed on to `findVersions`. -/
def loadMember (store : Store) (query : Value) : Except Failure VersionInfo := do
  let searches ← findVersions query store
  match searches with
  | [versionQuery] => toVersionInfo versionQuery
  | _ => .error (.runtimeError "Too many results found, expected one.")

def loadGlobalConfiguration (configuration : OptionText) (store : Store) :
    Except Failure (List VersionInfo) := do
  let queries ← compositionQueries (configurationSearch configuration) store
  queries.mapM (loadMember store)

/-! ## Storing -/

end ConfigurationInterface

/-- `VersionInfo::validate`. -/
def VersionInfo.validate (member : VersionInfo) : Except Failure Unit := do
  confirm (member.configuration ≠ "")
  confirm (member.version ≠ "")
  confirm (member.entity ≠ "")

/-- The members, each with its time. -/
def atTimes (times : ℕ → Clock) (members : List VersionInfo) : List (Clock × VersionInfo) :=
  members.zipIdx.map fun p => (times p.2, p.1)

/-- The removals; a failure is logged and forgotten. -/
def unassignMembers (configuration : OptionText) (members : List (Clock × VersionInfo)) :
    InPlace Failure Store Unit :=
  members.forM fun member =>
    tryCatch (unassignMember configuration member) fun _ => pure ()

/-- The members that are to be unassigned and assigned, where the old ones are
loaded if the composition is there and may be overwritten; what cannot be loaded
counts as none. -/
def compositionChange (configuration : OptionText) (newMembers : List VersionInfo)
    (compositionExists allowOverwrite : Bool) (store : Store) : List VersionInfo × List VersionInfo :=
  let oldMembers :=
    if compositionExists && allowOverwrite then
      (ConfigurationInterface.loadGlobalConfiguration configuration store).toOption.getD []
    else []
  let diff := computeCompositionDiff oldMembers newMembers
  (diff.toUnassign, if compositionExists && allowOverwrite then diff.toAssign else newMembers)

namespace ConfigurationInterface

/-- `storeGlobalConfiguration`; the removals and then the assignments have their
times. -/
def storeGlobalConfiguration (toTimepoint : String → Except Failure ℤ)
    (removeTimes assignTimes : ℕ → Clock) (versionInfoList : List VersionInfo)
    (configuration : String) (allowOverwrite : Bool) : InPlace Failure Store Unit := do
  if versionInfoList = [] then
    throw (.invalidArgument "Version info list is empty. Compositions must have at least one member.")
  if hconfiguration : configuration = "" then
    throw (.invalidArgument "Global configuration name is empty")
  else
    let name : OptionText := ⟨configuration, hconfiguration⟩
    let existingConfigs ← fetch (findGlobalConfigurations toTimepoint name)
    let compositionExists := decide (configuration ∈ existingConfigs)
    if compositionExists && !allowOverwrite then
      throw (.runtimeError ("Global configuration '" ++ configuration ++ "' already exists. " ++
        "Use allowOverwrite=true to update an existing configuration."))
    let change ← fetch fun store =>
      .ok (compositionChange name versionInfoList compositionExists allowOverwrite store)
    unassignMembers name (atTimes removeTimes change.1)
    if change.2 = [] then pure ()
    else do
      lift (change.2.forM VersionInfo.validate)
      createConfiguration name (atTimes assignTimes change.2)

end ConfigurationInterface

end ArtdaqDatabase
