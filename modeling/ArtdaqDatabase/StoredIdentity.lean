import ArtdaqDatabase.InsertUniqueness
import ArtdaqDatabase.StoredIds

/-!
# The identity of a stored document

`writeDocument` takes the id from the filter, names the file and the index entry by
it, and then asks the builder to put it into the record.  The builder refuses that
for a record whose flags say readonly or deleted, and the refusal is dropped.
-/

namespace ArtdaqDatabase

open OrderedTable SortedUnique InPlaceUpdate

/-- The document of a file carries the id of the file and the name of its
collection, and the index lists that id. -/
def StoredIdentity (store : Store) (name oid : String) : Prop :=
  ∃ document, documentAt store name oid = some document ∧
    idMember "$oid" document = some (.string oid) ∧
    lookup "collection" document = some (.string name) ∧
    oid ∈ (collectionAt name store).index.ouid

/-- The record that the provider makes of the document may be given its identity, or
has it already. -/
def TakesIdentity (env : Environment) (request : WriteRequest) : Prop :=
  ∃ record, ovlDatabaseRecord env request.userDocument = .ok record ∧
    (Writable record ∨
      idMember "$oid" record = some (.string request.oid) ∧
        lookup "collection" record = some (.string request.collection))

section Write

variable {env : Environment} {arg : Value} {request : WriteRequest} {store store' : Store}
  {id : Value}

/-- A write that succeeds has passed its checks. -/
theorem request_of_run (hrun : writeDocument env arg store = .ok id store') :
    ∃ request, writeRequest env arg = .ok request ∧ id = toId request.oid ∧
      checkInsert request (collectionAt request.collection store) = .ok () ∧
      store' = writeStep store (env, arg) := by
  have hafter : store' = writeStep store (env, arg) := (after_of_ok hrun).symm
  cases hrequest : writeRequest env arg with
  | error e =>
      have herror : writeDocument env arg store = .error e store :=
        bind_error (lift_run_error hrequest store)
      rw [herror] at hrun
      simp at hrun
  | ok request =>
      cases hcheck : checkInsert request (collectionAt request.collection store) with
      | error e =>
          rw [writeDocument_refused hrequest hcheck] at hrun
          simp at hrun
      | ok u =>
          rw [writeDocument_run hrequest hcheck, EStateM.Result.ok.injEq] at hrun
          exact ⟨request, rfl, hrun.1.symm, hcheck, hafter⟩

/-- The index of the collection lists the id of a write that is not refused. -/
theorem listed_writeStep
    (hrequest : writeRequest env arg = .ok request)
    (hcheck : checkInsert request (collectionAt request.collection store) = .ok ()) :
    request.oid ∈
      (collectionAt request.collection (writeStep store (env, arg))).index.ouid := by
  obtain ⟨version, hversion, hne⟩ := writeRequest_versioned hrequest
  have hview := congrArg Prod.fst (versionView_addDocument hversion hne request.oid_ne
    ((collectionAt request.collection store).indexWithout request))
  rw [writeStep, after_writeDocument hrequest, collectionAt_set, if_pos rfl,
    Collection.afterWrite, hcheck]
  have hids : ((collectionAt request.collection store).replaced request).index.ouid =
      sortUnique (((collectionAt request.collection store).indexWithout request).ouid ++
        [request.oid]) := hview
  change request.oid ∈ ((collectionAt request.collection store).replaced request).index.ouid
  rw [hids, mem_sortUnique]
  simp

theorem identity_recordToWrite_iff
    {record : Object} (hnormal : NormalRecord record) {name : String} (hname : name ≠ "")
    (env : Environment) (oid : String) :
    idMember "$oid" (recordToWrite env oid name record) = some (.string oid) ∧
        lookup "collection" (recordToWrite env oid name record) = some (.string name) ↔
      Writable record ∨
        idMember "$oid" record = some (.string oid) ∧
          lookup "collection" record = some (.string name) := by
  by_cases hwritable : Writable record
  · obtain ⟨-, hid, hcollection⟩ := recordToWrite_of_writable env oid hnormal hwritable hname
    have hmember : idMember "$oid" (recordToWrite env oid name record) =
        some (.string oid) := by
      rw [idMember, hid]
      rfl
    simp [hmember, hcollection, hwritable]
  · rw [recordToWrite_of_not_writable env oid hwritable]
    simp [hwritable]

/-- A write that succeeds leaves a document with the identity of its file exactly
when the record that comes in is neither readonly nor deleted, or has that identity
already. -/
theorem writeDocument_identity_iff
    (hrun : writeDocument env arg store = .ok id store') :
    ∃ request, writeRequest env arg = .ok request ∧ id = toId request.oid ∧
      (StoredIdentity store' request.collection request.oid ↔ TakesIdentity env request) := by
  obtain ⟨request, hrequest, hid, hcheck, rfl⟩ := request_of_run hrun
  refine ⟨request, hrequest, hid, ?_⟩
  obtain ⟨-, -, -, record, hrecord, hdocument⟩ := writeRequest_eq_ok hrequest
  have hname := writeCollectionName_ne (writeRequest_collection hrequest)
  have hiff := identity_recordToWrite_iff (normalRecord_overlay hrecord) hname env request.oid
  rw [← hdocument] at hiff
  have hstored : documentAt (writeStep store (env, arg)) request.collection request.oid =
      some request.document := by
    rw [documentAt_writeStep hrequest, if_pos ⟨rfl, rfl, hcheck⟩]
  constructor
  · rintro ⟨document, hdocument', hid', hcollection, -⟩
    rw [hstored, Option.some.injEq] at hdocument'
    rw [← hdocument'] at hid' hcollection
    exact ⟨record, hrecord, hiff.1 ⟨hid', hcollection⟩⟩
  · rintro ⟨record', hrecord', htakes⟩
    rw [hrecord, Except.ok.injEq] at hrecord'
    subst hrecord'
    obtain ⟨hid', hcollection⟩ := hiff.2 htakes
    exact ⟨request.document, hstored, hid', hcollection, listed_writeStep hrequest hcheck⟩

end Write

/-! ## Bulk import -/

namespace detail

/-- The payload of one document of `write_documents`: the document as it came, and
the id of the builder, which a frozen document gets anew. -/
def importPayload (clock : Clock) (options : ManageDocumentOperation) (document : Object) :
    Except Failure Value := do
  let builder ← ovlDatabaseRecord (clock 0) document
  let frozen ← isReadonlyOrDeleted builder
  let id ← getObjectID (if frozen then builderEdit (clock 1) .newObjectID builder else builder)
  .ok
    (.object
      [("document", .object document), ("filter", id),
        ("collection", .string options.collection.text)])

/-- `detail::write_documents`; each document has its own time. -/
def writeDocuments (options : ManageDocumentOperation) (documents : List (Clock × Object)) :
    InPlace Failure Store Unit := do
  lift (confirm (documents ≠ []))
  lift (confirm (options.operation = "store"))
  documents.forM fun p => do
    let payload ← lift (importPayload p.1 options p.2)
    let _ ← ArtdaqDatabase.writeDocument (p.1 2) payload

end detail

theorem exampleDocument_stored :
    ∃ id store', writeDocument exampleEnvironment (examplePayload "v1" "e1" []) [] =
      .ok id store' := by
  have hcheck : checkInsert (exampleRequest exampleEnvironment "v1" "e1" [])
      (collectionAt (exampleRequest exampleEnvironment "v1" "e1" []).collection []) =
      .ok () := by
    decide +kernel
  have hrequest : writeRequest exampleEnvironment (examplePayload "v1" "e1" []) =
      .ok (exampleRequest exampleEnvironment "v1" "e1" []) := by
    decide +kernel
  exact ⟨_, _, writeDocument_run hrequest hcheck⟩

theorem writeDocument_identity_iff_example :
    ∃ id store' request,
      writeDocument exampleEnvironment (examplePayload "v1" "e1" []) [] = .ok id store' ∧
      (StoredIdentity store' request.collection request.oid ↔
        TakesIdentity exampleEnvironment request) := by
  obtain ⟨id, store', hrun⟩ := exampleDocument_stored
  obtain ⟨request, -, -, hiff⟩ := writeDocument_identity_iff hrun
  exact ⟨id, store', request, hrun, hiff⟩

/-- An empty store into which a released document is imported. -/
def importedStore : Store :=
  after (detail.writeDocuments (exampleOptions "store") [(exampleClock, releasedDocument)]) []

/-- A released document that is imported is stored in a file of a new id, and names
the old one. -/
theorem importedDocument_keeps_old_id :
    (documentAt importedStore "run" "bbbbbbbbbbbbbbbbbbbbbbbb").isSome ∧
      ¬ StoredIdentity importedStore "run" "bbbbbbbbbbbbbbbbbbbbbbbb" := by
  have hmember : (documentAt importedStore "run" "bbbbbbbbbbbbbbbbbbbbbbbb").bind
      (idMember "$oid") = some (.string "cccccccccccccccccccccccc") := by
    decide +kernel
  obtain ⟨document, hstored, hid⟩ := Option.bind_eq_some_iff.1 hmember
  refine ⟨by rw [hstored]; rfl, ?_⟩
  rintro ⟨document', hstored', hid', -⟩
  rw [hstored, Option.some.injEq] at hstored'
  subst hstored'
  rw [hid] at hid'
  simp at hid'

end ArtdaqDatabase
