import ArtdaqDatabase.InPlaceUpdate
import ArtdaqDatabase.InvertedIndex
import ArtdaqDatabase.JsonDocument
import Mathlib.Data.String.Basic

/-!
# The search index of a collection

`SearchIndex` keeps the list of object ids and seven lookup tables.  Every
table is maintained by its own pair of functions in the source; they are one
update here, applied to the table of each member.  An update that throws keeps
what was done before it.
-/

namespace ArtdaqDatabase

open OrderedTable SortedUnique InvertedIndex InPlaceUpdate

/-- A lookup table of the index: a value and the ids listed under it. -/
abbrev Postings := Table String (List String)

/-- `_index`, with the tables of `empty_filesystem_index`. -/
structure SearchIndex where
  ouid : List String
  version : Postings
  configurations : Postings
  entities : Postings
  versionAliases : Postings
  runs : Postings
  configurationsAssigned : Postings
  deriving DecidableEq

/-- `empty_filesystem_index`. -/
def SearchIndex.empty : SearchIndex :=
  ⟨[], [], [], [], [], [], []⟩

/-- An update of the index in place. -/
abbrev IndexM := InPlace Failure SearchIndex

/-- The body that the `_add` and `_remove` members share: two assertions on the
arguments, then one table is rewritten. -/
def updateTable
    (ouid value : String) (rewrite : SearchIndex → SearchIndex) : IndexM Unit := do
  lift (confirm (ouid ≠ ""))
  lift (confirm (value ≠ ""))
  write rewrite

/-! ## Rewriting one table -/

namespace SearchIndex

def overOuid (f : List String → List String) (index : SearchIndex) : SearchIndex :=
  { index with ouid := f index.ouid }

def overVersion (f : Postings → Postings) (index : SearchIndex) : SearchIndex :=
  { index with version := f index.version }

def overConfigurations (f : Postings → Postings) (index : SearchIndex) : SearchIndex :=
  { index with configurations := f index.configurations }

def overEntities (f : Postings → Postings) (index : SearchIndex) : SearchIndex :=
  { index with entities := f index.entities }

def overVersionAliases (f : Postings → Postings) (index : SearchIndex) : SearchIndex :=
  { index with versionAliases := f index.versionAliases }

def overRuns (f : Postings → Postings) (index : SearchIndex) : SearchIndex :=
  { index with runs := f index.runs }

def overConfigurationsAssigned (f : Postings → Postings) (index : SearchIndex) : SearchIndex :=
  { index with configurationsAssigned := f index.configurationsAssigned }

end SearchIndex

open SearchIndex

/-! ## Adding -/

def addId (ouid : String) : IndexM Unit := do
  lift (confirm (ouid ≠ ""))
  write (overOuid fun ouids => sortUnique (ouids ++ [ouid]))

def addVersion (ouid version : String) : IndexM Unit :=
  updateTable ouid version (overVersion (insertPosting version ouid))

def addConfiguration (ouid configuration : String) : IndexM Unit :=
  updateTable ouid configuration (overConfigurations (insertPosting configuration ouid))

/-- `_addConfigurationAssigned`: this table lists timestamps, not ids. -/
def addConfigurationAssigned (timestamp configuration : String) : IndexM Unit :=
  updateTable timestamp configuration
    (overConfigurationsAssigned (insertPosting configuration timestamp))

def addEntity (ouid entity : String) : IndexM Unit :=
  updateTable ouid entity (overEntities (insertPosting entity ouid))

def addVersionAlias (ouid veralias : String) : IndexM Unit :=
  updateTable ouid veralias (overVersionAliases (insertPosting veralias ouid))

def addRun (ouid run : String) : IndexM Unit :=
  updateTable ouid run (overRuns (insertPosting run ouid))

/-! ## Removing -/

def removeId (oldOuid : String) : IndexM Unit := do
  lift (confirm (oldOuid ≠ ""))
  write (overOuid fun ouids => ouids.filter (· ≠ oldOuid))

def removeVersion (oldOuid version : String) : IndexM Unit :=
  updateTable oldOuid version (overVersion (dropPosting version oldOuid))

def removeConfiguration (oldOuid configuration : String) : IndexM Unit :=
  updateTable oldOuid configuration (overConfigurations (dropPosting configuration oldOuid))

def removeConfigurationAssigned (oldTimestamp configuration : String) : IndexM Unit :=
  updateTable oldTimestamp configuration
    (overConfigurationsAssigned (dropPosting configuration oldTimestamp))

def removeRun (oldOuid run : String) : IndexM Unit :=
  updateTable oldOuid run (overRuns (dropPosting run oldOuid))

/-! ## Documents -/

/-- One pass over an array of the document: the name of each entry is read and
handed on.  The first entry without a string name ends the pass. -/
def forEachName (entries : List Value) (act : String → IndexM Unit) : IndexM Unit :=
  entries.forM fun entry => do
    let name ← lift (nameOf entry)
    act name

/-- The pass over `configurations`, whose entries also carry a timestamp. -/
def forEachConfiguration
    (configs : List Value)
    (act actAssigned : String → String → IndexM Unit) (ouid : String) : IndexM Unit :=
  configs.forM fun config => do
    let configuration ← lift (nameOf config)
    act ouid configuration
    let assigned ← lift (config.getObject >>= stringAt "assigned")
    actAssigned assigned configuration

/-- A `try` block whose exceptions are dropped. -/
def tryIgnore (body : IndexM Unit) : IndexM Unit :=
  tryCatch body fun _ => pure ()

/-- `SearchIndex::addDocument` on the parsed document. -/
def addDocument (document : Object) (ouid : String) : IndexM Bool := do
  lift (confirm (ouid ≠ ""))
  tryCatch
    (do
      addId ouid
      let version ← lift (stringAt "version" document)
      addVersion ouid version
      let configs ← lift (arrayAt "configurations" document)
      forEachConfiguration configs addConfiguration addConfigurationAssigned ouid
      tryIgnore do
        let entities ← lift (arrayAt "entities" document)
        forEachName entities (addEntity ouid)
      tryIgnore do
        let aliases ← lift (objectAt "aliases" document >>= arrayAt "active")
        forEachName aliases (addVersionAlias ouid)
      tryIgnore do
        let runs ← lift (arrayAt "runs" document)
        forEachName runs (addRun ouid)
      return true)
    fun _ => return false

/-- `SearchIndex::removeDocument`.  Entities are not visited, and the names of
the active aliases go to `_removeConfiguration`. -/
def removeDocument (document : Object) (ouid : String) : IndexM Bool := do
  lift (confirm (ouid ≠ ""))
  tryCatch
    (do
      removeId ouid
      let version ← lift (stringAt "version" document)
      removeVersion ouid version
      let configs ← lift (arrayAt "configurations" document)
      forEachConfiguration configs removeConfiguration removeConfigurationAssigned ouid
      let aliases ← lift (objectAt "aliases" document >>= arrayAt "active")
      forEachName aliases (removeConfiguration ouid)
      let runs ← lift (arrayAt "runs" document)
      forEachName runs (removeRun ouid)
      return true)
    fun _ => return false

end ArtdaqDatabase
