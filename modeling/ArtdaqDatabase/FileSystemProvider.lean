import ArtdaqDatabase.JsonDocumentBuilder
import ArtdaqDatabase.SearchIndexDocument
import ArtdaqDatabase.SearchIndexSearch

/-!
# The file-system provider

A collection is a directory with one file for each document, named by the object
id, and the file of the search index.  `writeDocument` first prepares the record
and its id from the payload alone, then checks a new document for duplicates,
and then replaces the file and updates the index.  The last two parts each hold
the lock of the index for their own time.

A file holds the text of a document; writing and reading it back is taken to be
exact.  Object ids are taken to be file names other than that of the index, and
the prefix of the connection is left out of the names.
-/

namespace ArtdaqDatabase

open OrderedTable SortedUnique InvertedIndex InPlaceUpdate

/-! ## Collections -/

/-- The files of a collection: the documents by object id, and the index. -/
structure Collection where
  documents : Table String Object
  index : SearchIndex
  deriving DecidableEq

def Collection.empty : Collection :=
  ⟨[], SearchIndex.empty⟩

/-- The document stored under an object id. -/
def Collection.stored (c : Collection) (oid : String) : Option Object :=
  lookup oid c.documents

/-- The collections of a database by their names. -/
abbrev Store := Table String Collection

/-- A directory that is not there is created empty. -/
def collectionAt (name : String) (store : Store) : Collection :=
  (lookup name store).getD Collection.empty

/-! ## Preparing a write -/

/-- `to_id`. -/
def toId (oid : String) : Value :=
  .object [("_id", .object [("$oid", .string oid)])]

/-- What `writeDocument` takes from its argument before it touches a file. -/
structure WriteRequest where
  collection : String
  isNew : Bool
  oid : String
  userDocument : Object
  document : Object
  oid_ne : oid ≠ ""
  deriving DecidableEq

/-- The collection is named by the document, else by the filter, else by the payload. -/
def writeCollectionName (arg : Value) (userDocument filter : Object) :
    Except Failure String := do
  let name := (childText "collection" (.object userDocument)).toOption.getD ""
  let name := if name = "" then (childText "collection" (.object filter)).toOption.getD "" else name
  let name ← if name = "" then childText "collection" arg else .ok name
  confirm (name ≠ "")
  .ok name

def writeFilter (arg : Value) : Object :=
  (findChildDocument "filter" arg >>= Value.getObject).toOption.getD []

/-- The object id that the filter provides. -/
def providedOid (filter : Object) : Option String :=
  (childText "_id" (.object filter) >>= extractOid).toOption

/-- The object id of a write: a filter without one, or with the invalid one, gets
a generated id. -/
def writeOid (env : Environment) (filter : Object) : String :=
  let oid := (providedOid filter).getD ouidInvalid
  if oid = ouidInvalid then env.providerOid else oid

/-- The record with its id and its collection. -/
def recordToWrite (env : Environment) (oid collection : String) (record : Object) : Object :=
  builderEdits record
    [(env, .setObjectID (toId oid)),
      (env, .setCollection (.object [("collection", .string collection)]))]

def writeRequest (env : Environment) (arg : Value) : Except Failure WriteRequest := do
  let userDocument ← findChildDocument "document" arg >>= Value.getObject
  let filter := writeFilter arg
  let collection ← writeCollectionName arg userDocument filter
  if hoid : writeOid env filter = "" then .error .confirmFailed
  else
    let record ← ovlDatabaseRecord env userDocument
    .ok
      { collection := collection
        isNew := (providedOid filter).isNone
        oid := writeOid env filter
        userDocument := userDocument
        document := recordToWrite env (writeOid env filter) collection record
        oid_ne := hoid }

/-! ## The duplicate check -/

/-- The first entity of the document, or no text when the lookups fail. -/
def duplicateEntity (userDocument : Object) : String :=
  (do
    let entities ← findChildDocument "entities" (.object userDocument)
    let item ← elementAt entities 0
    childText "name" item).toOption.getD ""

/-- The search of the duplicate check. -/
def duplicateFilter (userDocument : Object) : Except Failure Object := do
  let version ← childText "version" (.object userDocument)
  let entity := duplicateEntity userDocument
  .ok (("version", .string version) ::
    if entity = "" then [] else [("entities.name", .string entity)])

def msgDuplicate (request : WriteRequest) : Failure :=
  .runtimeError <|
    "Document with same version and entity already exists; collection=<" ++
      request.collection ++ ">, version=<" ++
      (childText "version" (.object request.userDocument)).toOption.getD "" ++
      ">, entity=<" ++ duplicateEntity request.userDocument ++ ">"

def msgFileExists (request : WriteRequest) : Failure :=
  .runtimeError <|
    "FileSystemDB failed inserting data, document already exist; filename= <" ++
      request.collection ++ "/" ++ request.oid ++ ".json>"

/-- The search for duplicates; exceptions of other kinds are dropped. -/
def checkDuplicate (request : WriteRequest) (c : Collection) : Except Failure Unit :=
  match duplicateFilter request.userDocument >>= findDocumentIDs c.index with
  | .ok [] => .ok ()
  | .ok _ => .error (msgDuplicate request)
  | .error (.runtimeError text) => .error (.runtimeError text)
  | .error _ => .ok ()

/-- What a new document has to pass. -/
def checkInsert (request : WriteRequest) (c : Collection) : Except Failure Unit :=
  if request.isNew then
    if (c.stored request.oid).isSome then .error (msgFileExists request)
    else checkDuplicate request c
  else .ok ()

/-! ## Writing -/

/-- An update of the index inside the collection. -/
def onIndex {α : Type} (x : IndexM α) : InPlace Failure Collection α := fun c =>
  match x c.index with
  | .ok a index => .ok a { c with index := index }
  | .error e index => .error e { c with index := index }

/-- Replace the file and update the index. -/
def replaceDocument (request : WriteRequest) : InPlace Failure Collection Unit := do
  let old ← fetch fun c => .ok (c.stored request.oid)
  if !request.isNew then
    match old with
    | some oldDocument => let _ ← onIndex (removeDocument oldDocument request.oid)
    | none => pure ()
  write fun c => { c with documents := set request.oid request.document c.documents }
  let _ ← onIndex (addDocument request.document request.oid)

def writeToCollection (request : WriteRequest) : InPlace Failure Collection Unit := do
  fetch (checkInsert request)
  replaceDocument request

/-- Work on one collection of the database. -/
def onCollection {α : Type} (name : String) (x : InPlace Failure Collection α) :
    InPlace Failure Store α := fun store =>
  match x (collectionAt name store) with
  | .ok a c => .ok a (set name c store)
  | .error e c => .error e (set name c store)

/-- `StorageProvider::writeDocument`. -/
def writeDocument (env : Environment) (arg : Value) : InPlace Failure Store Value := do
  let request ← lift (writeRequest env arg)
  onCollection request.collection (writeToCollection request)
  return toId request.oid

/-! ## The prepared record -/

theorem lookup_recordToWrite
    {k : String} (hk : k ∉ ["_id", "collection", "bookkeeping"])
    (env : Environment) (oid collection : String) (record : Object) :
    lookup k (recordToWrite env oid collection record) = lookup k record := by
  simp only [List.mem_cons, List.not_mem_nil, or_false, not_or] at hk
  rw [recordToWrite, builderEdits, GuardedRun.run_cons, GuardedRun.run_cons,
    GuardedRun.run_nil, lookup_builderEdit_of_untouched, lookup_builderEdit_of_untouched]
  · simp [touchedKeys, hk]
  · simp [touchedKeys, hk]

theorem writeRequest_eq_ok
    {env : Environment} {arg : Value} {request : WriteRequest}
    (hrequest : writeRequest env arg = .ok request) :
    findChildDocument "document" arg = .ok (.object request.userDocument) ∧
      request.isNew = (providedOid (writeFilter arg)).isNone ∧
      request.oid = writeOid env (writeFilter arg) ∧
      ∃ record, ovlDatabaseRecord env request.userDocument = .ok record ∧
        request.document = recordToWrite env request.oid request.collection record := by
  simp only [writeRequest, bind_eq_ok, getObject_eq_ok] at hrequest
  obtain ⟨userDocument, ⟨v, hv, rfl⟩, collection, -, hrequest⟩ := hrequest
  split at hrequest
  · simp at hrequest
  · simp only [bind_eq_ok, Except.ok.injEq] at hrequest
    obtain ⟨record, hrecord, rfl⟩ := hrequest
    exact ⟨hv, rfl, rfl, record, hrecord, rfl⟩

/-- The document has a version that can be indexed. -/
def Versioned (document : Object) : Prop :=
  ∃ version, lookup "version" document = some (.string version) ∧ version ≠ ""

/-- The overlay leaves no record without a version. -/
theorem overlay_version
    {env : Environment} {document record : Object}
    (hrecord : ovlDatabaseRecord env document = .ok record) :
    ∃ version, (lookup "version" document = some (.string version) ∨
        lookup "version" document = none ∧ version = "") ∧
      lookup "version" record =
        some (.string (if version = "" then "notprovided" else version)) := by
  obtain ⟨w, ⟨⟨v, hinput, hnormalize⟩, hlookup, -⟩⟩ :=
    applySections_result recordSections_nodup hrecord
      (s := ⟨"version", valueDefault (.string ""), false, ovlStringKeyValue⟩)
      (by simp [recordSections])
  have hstring : ovlStringKeyValue env v = .ok w := hnormalize
  obtain ⟨version, rfl, rfl⟩ := ovlStringKeyValue_eq_ok.1 hstring
  refine ⟨version, ?_, hlookup⟩
  cases hversion : lookup "version" document with
  | none => simpa [Section.input, hversion, valueDefault, eq_comm] using hinput
  | some u => simpa [Section.input, hversion] using hinput

theorem writeRequest_versioned
    {env : Environment} {arg : Value} {request : WriteRequest}
    (hrequest : writeRequest env arg = .ok request) :
    Versioned request.document := by
  obtain ⟨-, -, -, record, hrecord, hdocument⟩ := writeRequest_eq_ok hrequest
  obtain ⟨version, -, hversion⟩ := overlay_version hrecord
  refine ⟨if version = "" then "notprovided" else version, ?_, ?_⟩
  · rw [hdocument, lookup_recordToWrite (by decide), hversion]
  · split
    · decide
    · assumption

/-! ## What a write does -/

/-- The index without the document that is about to be replaced. -/
def Collection.indexWithout (c : Collection) (request : WriteRequest) : SearchIndex :=
  if request.isNew then c.index
  else
    match c.stored request.oid with
    | some old => after (removeDocument old request.oid) c.index
    | none => c.index

/-- The collection after a write that is not refused. -/
def Collection.replaced (c : Collection) (request : WriteRequest) : Collection where
  documents := set request.oid request.document c.documents
  index := after (addDocument request.document request.oid) (c.indexWithout request)

theorem onIndex_run
    {α : Type} {x : IndexM α} {a : α} {c : Collection} {index : SearchIndex}
    (hx : x c.index = .ok a index) :
    onIndex x c = .ok a { c with index := index } := by
  rw [onIndex, hx]

theorem replaceDocument_run (request : WriteRequest) (c : Collection) :
    replaceDocument request c = .ok () (c.replaced request) := by
  have hadd : ∀ c' : Collection, ∃ b, onIndex (addDocument request.document request.oid) c' =
      .ok b { c' with index := after (addDocument request.document request.oid) c'.index } := by
    intro c'
    obtain ⟨b, hb⟩ := addDocument_returns request.document request.oid_ne c'.index
    exact ⟨b, onIndex_run hb⟩
  have hwritten : ∀ c' : Collection, c'.documents = c.documents →
      c'.index = c.indexWithout request →
      (do
        write fun c => { c with documents := set request.oid request.document c.documents }
        let _ ← onIndex (addDocument request.document request.oid)
        : InPlace Failure Collection Unit) c' = .ok () (c.replaced request) := by
    intro c' hdocuments hindex
    rw [bind_run (write_run _ _)]
    obtain ⟨b, hb⟩ := hadd
      { c' with documents := set request.oid request.document c'.documents }
    rw [bind_run hb, Collection.replaced, hdocuments, hindex]
    rfl
  have hold : (fetch fun c => .ok (c.stored request.oid) :
      InPlace Failure Collection (Option Object)) c = .ok (c.stored request.oid) c := rfl
  rw [replaceDocument, bind_run hold]
  cases hnew : request.isNew with
  | true => exact hwritten c rfl (by simp [Collection.indexWithout, hnew])
  | false =>
      cases hstored : c.stored request.oid with
      | none => exact hwritten c rfl (by simp [Collection.indexWithout, hnew, hstored])
      | some old =>
          obtain ⟨b, hb⟩ := removeDocument_returns old request.oid_ne c.index
          have hremoved := onIndex_run hb
          change (onIndex (removeDocument old request.oid) >>= _) c = _
          rw [bind_run hremoved]
          exact hwritten _ rfl (by simp [Collection.indexWithout, hnew, hstored])

theorem writeToCollection_run
    {request : WriteRequest} {c : Collection} (hcheck : checkInsert request c = .ok ()) :
    writeToCollection request c = .ok () (c.replaced request) := by
  rw [writeToCollection, bind_run (fetch_ok hcheck), replaceDocument_run]

theorem writeToCollection_refused
    {request : WriteRequest} {c : Collection} {e : Failure}
    (hcheck : checkInsert request c = .error e) :
    writeToCollection request c = .error e c := by
  rw [writeToCollection, bind_error (fetch_error hcheck)]

@[simp]
theorem stored_empty (oid : String) : Collection.empty.stored oid = none := rfl

/-- A write replaces the document of its id and no other. -/
theorem stored_replaced (c : Collection) (request : WriteRequest) :
    (c.replaced request).stored =
      Function.update c.stored request.oid (some request.document) := by
  funext oid
  rw [Collection.stored, Collection.replaced, lookup_set, Function.update_apply]
  rfl

@[simp]
theorem collectionAt_set (name name' : String) (c : Collection) (store : Store) :
    collectionAt name' (set name c store) = if name' = name then c else collectionAt name' store := by
  rw [collectionAt, lookup_set]
  split <;> simp [collectionAt]

/-- The result of a write on the collection it names. -/
def Collection.afterWrite (c : Collection) (request : WriteRequest) : Collection :=
  match checkInsert request c with
  | .ok _ => c.replaced request
  | .error _ => c

theorem after_writeDocument
    {env : Environment} {arg : Value} {request : WriteRequest}
    (hrequest : writeRequest env arg = .ok request) (store : Store) :
    after (writeDocument env arg) store =
      set request.collection ((collectionAt request.collection store).afterWrite request)
        store := by
  rw [writeDocument, hrequest, after_bind (lift_ok request store), Collection.afterWrite]
  cases hcheck : checkInsert request (collectionAt request.collection store) with
  | ok _ =>
      have hrun : onCollection request.collection (writeToCollection request) store =
          .ok () (set request.collection
            ((collectionAt request.collection store).replaced request) store) := by
        rw [onCollection, writeToCollection_run hcheck]
      rw [after_bind hrun]
      rfl
  | error e =>
      have hrun : onCollection request.collection (writeToCollection request) store =
          .error e (set request.collection (collectionAt request.collection store) store) := by
        rw [onCollection, writeToCollection_refused hcheck]
      rw [after_of_error (bind_error hrun)]

/-! ## Runs of writes -/

/-- One call of `writeDocument`, whether it throws or not. -/
def writeStep (store : Store) (call : Environment × Value) : Store :=
  after (writeDocument call.1 call.2) store

def writes (store : Store) (calls : List (Environment × Value)) : Store :=
  GuardedRun.run writeStep store calls

/-- A property of a collection is kept by a call when the write it prepares, if
it is not refused, keeps it. -/
theorem collectionAt_writeStep
    {P : Collection → Prop} {name : String} {store : Store} {call : Environment × Value}
    (hwrite : ∀ request, writeRequest call.1 call.2 = .ok request →
      request.collection = name → checkInsert request (collectionAt name store) = .ok () →
      P ((collectionAt name store).replaced request))
    (hstore : P (collectionAt name store)) :
    P (collectionAt name (writeStep store call)) := by
  cases hrequest : writeRequest call.1 call.2 with
  | error e =>
      have hrun : writeDocument call.1 call.2 store = .error e store := by
        rw [writeDocument, hrequest]
        exact bind_error (lift_error e store)
      rw [writeStep, after_of_error hrun]
      exact hstore
  | ok request =>
      rw [writeStep, after_writeDocument hrequest, collectionAt_set]
      by_cases hname : name = request.collection
      · rw [if_pos hname]
        subst hname
        unfold Collection.afterWrite
        cases hcheck : checkInsert request (collectionAt request.collection store) with
        | ok _ => exact hwrite request hrequest rfl hcheck
        | error e => exact hstore
      · rw [if_neg hname]
        exact hstore

theorem checkInsert_absent
    {request : WriteRequest} {c : Collection} (hcheck : checkInsert request c = .ok ())
    (hnew : request.isNew = true) :
    c.stored request.oid = none := by
  rw [checkInsert, if_pos hnew] at hcheck
  split at hcheck
  · simp at hcheck
  · rename_i hstored
    simpa using hstored

/-! ## Payloads -/

/-- A payload with a small document, as a client may send it. -/
def examplePayload (version entity : String) (filter : Object) : Value :=
  .object
    [("document",
        .object
          [("version", .string version), ("collection", .string "run"),
            ("entities", .array [.object [("name", .string entity)]])]),
      ("filter", .object filter)]

/-- The id that is generated at the example time. -/
def exampleId : Object :=
  [("_id", .object [("$oid", .string exampleEnvironment.providerOid)])]

/-- The write that is prepared from an example payload. -/
def exampleRequest (env : Environment) (version entity : String) (filter : Object) :
    WriteRequest :=
  (writeRequest env (examplePayload version entity filter)).toOption.getD
    ⟨"run", true, "0", [], [], by decide⟩

theorem exampleRequest_eq
    {env : Environment} {version entity : String} {filter : Object} {request : WriteRequest}
    (hrequest : writeRequest env (examplePayload version entity filter) = .ok request) :
    exampleRequest env version entity filter = request := by
  rw [exampleRequest, hrequest]
  rfl

end ArtdaqDatabase
