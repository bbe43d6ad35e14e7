import ArtdaqDatabase.StoredIdentity
import ArtdaqDatabase.InnerJoin

/-!
# Archives of a collection

`export_collection` reads all documents and writes each to a file named by its
object id; `import_collection` reads the files of the archive, in the order of the
directory, and writes the documents.  Packing and unpacking the directory is taken
to lose nothing.
-/

namespace ArtdaqDatabase

open OrderedTable InPlaceUpdate

/-! ## Export and import -/

/-- `JSONDocumentBuilder::getObjectOUID`. -/
def getObjectOUID (record : Object) : Except Failure String :=
  objectAt "_id" record >>= stringAt "$oid"

/-- The file of a document: its name, without the extension, and its content. -/
def archiveFile (env : Environment) (document : Object) : Except Failure (String × Object) := do
  let builder ← ovlDatabaseRecord env document
  let oid ← getObjectOUID builder
  .ok (oid, document)

/-- `export_collection`: the files of the archive. -/
def exportCollection (clock : Clock) (options : ManageDocumentOperation) (store : Store) :
    Except Failure (Table String Object) := do
  confirm (options.operation = "exportcollection")
  let documents ← readDocuments (searchPayload options) store
  if documents = [] then
    .error (.runtimeError (options.collection.text ++ " is empty."))
  else
    let files ← documents.zipIdx.mapM fun p => archiveFile (clock p.2) p.1
    .ok (setAll files [])

/-- A file of the archive: `extract` hands on what the builder made of its content. -/
def importedFile (file : Clock × Object) : Except Failure (Clock × Object) := do
  let record ← ovlDatabaseRecord (file.1 3) file.2
  .ok (file.1, record)

/-- `import_collection`; each file has its own time. -/
def importCollection (options : ManageDocumentOperation) (files : List (Clock × Object)) :
    InPlace Failure Store Unit := do
  lift (confirm (options.operation = "importcollection"))
  let documents ← lift (files.mapM importedFile)
  if documents = [] then
    throw (.runtimeError (options.collection.text ++ " is empty."))
  else
    detail.writeDocuments { options with operation := "store", format := .db } documents

/-! ## What is read -/

/-- The options name a collection and no criterion. -/
def WholeCollection (options : ManageDocumentOperation) : Prop :=
  options.queryFilterToJsonData = .object []

theorem readDocuments_whole
    {options : ManageDocumentOperation} (hwhole : WholeCollection options) (store : Store) :
    readDocuments (searchPayload options) store =
      (collectionAt options.collection.text store).index.ouid.mapM
        (readFile (collectionAt options.collection.text store)) := by
  have hfilter : writeFilter (searchPayload options) = [] :=
    writeFilter_of_lookup (by rw [← hwhole]; rfl)
  have hname : readCollectionName (searchPayload options) = .ok options.collection.text := by
    have habsent : childText "collection" (.object []) = .error (.notFound "collection") :=
      childText_of_absent rfl
    have hcollection : childText "collection" (searchPayload options) =
        .ok options.collection.text :=
      @childText_of_lookup "collection" _ (.string options.collection.text) (by decide) rfl
    simp [readCollectionName, hfilter, habsent, hcollection, confirm, options.collection.text_ne,
      bind, Except.bind, Except.toOption]
  simp [readDocuments, hname, hfilter, findDocumentIDs, bind, Except.bind]

theorem readFile_eq_ok {c : Collection} {oid : String} {document : Object} :
    readFile c oid = .ok document ↔ c.stored oid = some document := by
  unfold readFile
  cases c.stored oid <;> simp

/-- A query without a criterion reads all documents. -/
theorem mem_readDocuments_whole
    {store : Store} (hreachable : Reachable store) {options : ManageDocumentOperation}
    (hwhole : WholeCollection options) {documents : List Object}
    (hread : readDocuments (searchPayload options) store = .ok documents) (document : Object) :
    document ∈ documents ↔
      ∃ oid, documentAt store options.collection.text oid = some document := by
  obtain ⟨calls, rfl⟩ := hreachable
  have hids := (versionsListed_writes calls options.collection.text).ids
  rw [readDocuments_whole hwhole] at hread
  rw [mapM_eq_ok_mem hread]
  simp only [readFile_eq_ok, hids]
  constructor
  · rintro ⟨oid, -, hstored⟩
    exact ⟨oid, hstored⟩
  · rintro ⟨oid, hstored⟩
    exact ⟨oid, ⟨document, hstored⟩, hstored⟩

/-! ## One document -/

/-- The payload of a document that is written under an id. -/
def archivePayload (options : ManageDocumentOperation) (document : Object) (id : Value) : Value :=
  .object
    [("document", .object document), ("filter", .object [("_id", id)]),
      ("collection", .string options.collection.text)]

/-- The `_id` that the builder of an import gives to a frozen document. -/
def renewedId (clock : Clock) (document : Object) : Value :=
  (lookup "_id" (builderEdit (clock 1) .newObjectID document)).getD (.object [])

/-- The file that a frozen document is imported to. -/
def renewedOid (clock : Clock) (document : Object) : String :=
  writeOid (clock 2) [("_id", renewedId clock document)]

section Import

variable {clock : Clock} {options : ManageDocumentOperation} {document : Object} {oid : String}

/-- The new id is the one of the clock, where the old one was an id and nothing else. -/
theorem renewedOid_eq
    (haccepted : Accepted document)
    (hid : lookup "_id" document = some (.object [("$oid", .string oid)])) :
    renewedOid clock document = (clock 1).newOid := by
  have hvalid := ((clock 1).oid_valid (clock 1).newOid (by simp)).2
  have hrenewed : renewedId clock document =
      .object [("$oid", .string (clock 1).newOid)] := by
    rw [renewedId, builderEdit_newObjectID haccepted hid, lookup_set_self, Option.getD_some]
  rw [renewedOid, hrenewed, writeOid, providedOid_own]
  simp [hvalid]

theorem importPayload_frozen
    (haccepted : Accepted document) (hfrozen : isReadonlyOrDeleted document = .ok true) :
    detail.importPayload clock options document =
      .ok (archivePayload options document (renewedId clock document)) := by
  have hrecord : ovlDatabaseRecord (clock 0) document = .ok document := haccepted (clock 0)
  obtain ⟨id, -, hafter, -⟩ := newId_edit (clock 1) haccepted
  have hbuilder : lookup "_id" (builderEdit (clock 1) .newObjectID document) =
      some (.object (set "$oid" (.string (clock 1).newOid) id)) := by
    change lookup "_id" (after (recordNewId (clock 1)) document) = _
    rw [hafter, lookup_set_self]
  simp [detail.importPayload, hrecord, hfrozen, getObjectID, valueAt_eq_ok.2 hbuilder,
    archivePayload, renewedId, hbuilder, bind, Except.bind]

theorem importPayload_writable
    (haccepted : Accepted document) (hwritable : Writable document)
    (hid : lookup "_id" document = some (.object [("$oid", .string oid)])) :
    detail.importPayload clock options document =
      .ok (archivePayload options document (.object [("$oid", .string oid)])) := by
  have hrecord : ovlDatabaseRecord (clock 0) document = .ok document := haccepted (clock 0)
  have hflags : isReadonlyOrDeleted document = .ok false := hwritable
  simp [detail.importPayload, hrecord, hflags, getObjectID, valueAt_eq_ok.2 hid, archivePayload,
    bind, Except.bind]

theorem writeFilter_archivePayload (id : Value) :
    writeFilter (archivePayload options document id) = [("_id", id)] :=
  writeFilter_of_lookup rfl

/-- A document that is written to its own place is stored there. -/
theorem writeDocument_archivePayload
    {name : String} (hplaced : Placed name oid document) (env : Environment) (store : Store) :
    ∃ id store',
      writeDocument env (archivePayload options document (.object [("$oid", .string oid)])) store =
        .ok id store' ∧
      ∀ name' oid', documentAt store' name' oid' =
        if name' = name ∧ oid' = oid then some document else documentAt store name' oid' := by
  have hdocument : findChildDocument "document"
      (archivePayload options document (.object [("$oid", .string oid)])) =
      .ok (.object document) := findChildDocument_eq_ok.2 ⟨_, document, rfl, rfl, rfl⟩
  have hfilter := @writeFilter_archivePayload options document (.object [("$oid", .string oid)])
  obtain ⟨request, hrequest, -, -, hnew, -⟩ := writeRequest_own hplaced hdocument hfilter env
  have hcheck : checkInsert request (collectionAt request.collection store) = .ok () := by
    simp [checkInsert, hnew]
  have hrun := writeDocument_run hrequest hcheck
  refine ⟨_, _, hrun, fun name' oid' => ?_⟩
  rw [← documentAt_own hplaced hdocument hfilter env store name' oid', writeStep, after_of_ok hrun]

/-- A write under an id changes no file of another id. -/
theorem documentAt_archivePayload
    {env : Environment} {store store' : Store} {id result : Value}
    (hrun : writeDocument env (archivePayload options document id) store = .ok result store')
    {name' oid' : String} (hne : oid' ≠ writeOid env [("_id", id)]) :
    documentAt store' name' oid' = documentAt store name' oid' := by
  obtain ⟨request, hrequest, -, -, rfl⟩ := request_of_run hrun
  have hid : request.oid = writeOid env [("_id", id)] := by
    rw [(writeRequest_eq_ok hrequest).2.2.1, writeFilter_archivePayload]
  rw [documentAt_writeStep hrequest, if_neg]
  rintro ⟨-, heq, -⟩
  exact hne (heq.trans hid)

end Import

/-! ## A whole archive -/

/-- The pass of `write_documents` over one document. -/
def writeImported (options : ManageDocumentOperation) (p : Clock × Object) :
    InPlace Failure Store Unit := do
  let payload ← lift (detail.importPayload p.1 options p.2)
  let _ ← writeDocument (p.1 2) payload

theorem writeDocuments_eq (options : ManageDocumentOperation) (documents : List (Clock × Object)) :
    detail.writeDocuments options documents = (do
      lift (confirm (documents ≠ []))
      lift (confirm (options.operation = "store"))
      documents.forM (writeImported options)) := rfl

section Run

variable {options : ManageDocumentOperation} {p : Clock × Object} {name oid : String}

theorem writeImported_run
    (hplaced : Placed name oid p.2) (hwritable : Writable p.2) (store : Store) :
    ∃ store', writeImported options p store = .ok () store' ∧
      ∀ name' oid', documentAt store' name' oid' =
        if name' = name ∧ oid' = oid then some p.2 else documentAt store name' oid' := by
  obtain ⟨id, store', hrun, hafter⟩ :=
    @writeDocument_archivePayload options _ _ _ hplaced (p.1 2) store
  have hpayload := @importPayload_writable p.1 options _ _ hplaced.accepted
    hwritable hplaced.id
  refine ⟨store', ?_, hafter⟩
  rw [writeImported, bind_run (lift_run hpayload store), bind_run hrun]
  rfl

/-- A frozen document is imported to its new id only. -/
theorem documentAt_writeImported_frozen
    (haccepted : Accepted p.2) (hfrozen : ¬ Writable p.2) {store store' : Store}
    (hrun : writeImported options p store = .ok () store')
    {name' oid' : String} (hne : oid' ≠ renewedOid p.1 p.2) :
    documentAt store' name' oid' = documentAt store name' oid' := by
  rw [writeImported, bind_run_iff] at hrun
  obtain ⟨payload, store₁, hlift, hrun⟩ := hrun
  obtain ⟨result, store₂, hwrite, hreturn⟩ := bind_run_iff.1 hrun
  cases hreturn
  have hrecord : ovlDatabaseRecord (p.1 0) p.2 = .ok p.2 := haccepted (p.1 0)
  cases hflags : isReadonlyOrDeleted p.2 with
  | error e =>
      have herror : detail.importPayload p.1 options p.2 = .error e := by
        simp [detail.importPayload, hrecord, hflags, bind, Except.bind]
      rw [lift_run_error herror] at hlift
      cases hlift
  | ok frozen =>
      cases frozen with
      | false => exact absurd hflags hfrozen
      | true =>
          rw [lift_run (importPayload_frozen haccepted hflags)] at hlift
          cases hlift
          exact documentAt_archivePayload hwrite hne

/-- A document that is found after an import was there before, or is ordinary, or
has a new id. -/
theorem documentAt_writeImported
    (haccepted : Accepted p.2) (hplaced : Writable p.2 → ∃ oid, Placed name oid p.2)
    {store store' : Store} (hrun : writeImported options p store = .ok () store')
    {name' oid' : String} {document : Object}
    (hdocument : documentAt store' name' oid' = some document) :
    documentAt store name' oid' = some document ∨ Writable document ∨
      oid' = renewedOid p.1 p.2 := by
  by_cases hwritable : Writable p.2
  · obtain ⟨oid, hplace⟩ := hplaced hwritable
    obtain ⟨store'', hrun', hafter⟩ :=
      @writeImported_run options _ _ _ hplace hwritable store
    rw [hrun, EStateM.Result.ok.injEq] at hrun'
    rw [hrun'.2, hafter] at hdocument
    split at hdocument
    · rw [Option.some.injEq] at hdocument
      exact Or.inr (Or.inl (hdocument ▸ hwritable))
    · exact Or.inl hdocument
  · by_cases hne : oid' = renewedOid p.1 p.2
    · exact Or.inr (Or.inr hne)
    · rw [documentAt_writeImported_frozen haccepted hwritable hrun hne] at hdocument
      exact Or.inl hdocument

end Run

section Runs

variable {options : ManageDocumentOperation} {name : String}

theorem documentAt_imported
    {documents : List (Clock × Object)}
    (hdocuments : ∀ p ∈ documents, Accepted p.2 ∧
      (Writable p.2 → ∃ oid, Placed name oid p.2))
    {store store' : Store} (hrun : documents.forM (writeImported options) store = .ok () store')
    {name' oid' : String} {document : Object}
    (hdocument : documentAt store' name' oid' = some document) :
    documentAt store name' oid' = some document ∨ Writable document ∨
      ∃ p ∈ documents, oid' = renewedOid p.1 p.2 := by
  induction documents generalizing store with
  | nil =>
      cases hrun
      exact Or.inl hdocument
  | cons p rest ih =>
      have hstep : (writeImported options p >>= fun _ => rest.forM (writeImported options)) store =
          .ok () store' := hrun
      obtain ⟨u, middle, hfirst, hrest⟩ := bind_run_iff.1 hstep
      obtain ⟨haccepted, hplaced⟩ := hdocuments p List.mem_cons_self
      rcases ih (fun q hq => hdocuments q (List.mem_cons_of_mem p hq)) hrest with hmiddle | hother
      · rcases documentAt_writeImported haccepted hplaced hfirst hmiddle with h | h | h
        · exact Or.inl h
        · exact Or.inr (Or.inl h)
        · exact Or.inr (Or.inr ⟨p, List.mem_cons_self, h⟩)
      · rcases hother with h | ⟨q, hq, h⟩
        · exact Or.inr (Or.inl h)
        · exact Or.inr (Or.inr ⟨q, List.mem_cons_of_mem p hq, h⟩)

/-- Ordinary documents are imported to the places that they were exported from. -/
theorem imports_ordinary
    {source : Store} {documents : List (Clock × Object)}
    (hdocuments : ∀ p ∈ documents, Writable p.2 ∧
      ∃ oid, Placed name oid p.2 ∧ documentAt source name oid = some p.2)
    (store : Store) :
    ∃ store', documents.forM (writeImported options) store = .ok () store' ∧
      ∀ name' oid',
        ((∃ p ∈ documents, name' = name ∧ Placed name oid' p.2) →
          documentAt store' name' oid' = documentAt source name oid') ∧
        ((¬ ∃ p ∈ documents, name' = name ∧ Placed name oid' p.2) →
          documentAt store' name' oid' = documentAt store name' oid') := by
  induction documents generalizing store with
  | nil => exact ⟨store, rfl, by simp⟩
  | cons p rest ih =>
      obtain ⟨hwritable, oid, hplaced, hsource⟩ := hdocuments p List.mem_cons_self
      obtain ⟨middle, hfirst, hmiddle⟩ :=
        @writeImported_run options _ _ _ hplaced hwritable store
      obtain ⟨store', hrest, hafter⟩ :=
        ih (fun q hq => hdocuments q (List.mem_cons_of_mem p hq)) middle
      refine ⟨store', ?_, fun name' oid' => ?_⟩
      · change (writeImported options p >>= fun _ => rest.forM (writeImported options)) store = _
        rw [bind_run hfirst, hrest]
      have hown : ∀ oid', Placed name oid' p.2 → oid' = oid := by
        intro oid' hother
        have hid := hother.id.symm.trans hplaced.id
        simpa using hid
      by_cases hlater : ∃ q ∈ rest, name' = name ∧ Placed name oid' q.2
      · refine ⟨fun _ => (hafter name' oid').1 hlater, fun hnone => ?_⟩
        obtain ⟨q, hq, hplace⟩ := hlater
        exact absurd ⟨q, List.mem_cons_of_mem p hq, hplace⟩ hnone
      · rw [(hafter name' oid').2 hlater, hmiddle]
        constructor
        · rintro ⟨q, hq, rfl, hplace⟩
          rcases List.mem_cons.1 hq with rfl | hq
          · rw [hown oid' hplace, if_pos ⟨rfl, rfl⟩, hsource]
          · exact absurd ⟨q, hq, rfl, hplace⟩ hlater
        · intro hnone
          rw [if_neg]
          rintro ⟨rfl, rfl⟩
          exact hnone ⟨p, List.mem_cons_self, rfl, hplaced⟩

end Runs

/-! ## What an archive holds -/

section Archive

variable {store : Store} {clock : Clock} {options : ManageDocumentOperation}
  {archive : Table String Object} (hreachable : Reachable store)
  (hwhole : WholeCollection options) (hexport : exportCollection clock options store = .ok archive)
include hreachable hwhole hexport

/-- Every document has its file, unless a later one with the same id took it over. -/
theorem exportCollection_eq_ok :
    ∃ entries, archive = setAll entries [] ∧
      (∃ oid document, documentAt store options.collection.text oid = some document) ∧
      (∀ entry ∈ entries, Accepted entry.2 ∧ getObjectOUID entry.2 = .ok entry.1 ∧
        ∃ oid, documentAt store options.collection.text oid = some entry.2) ∧
      ∀ oid document, documentAt store options.collection.text oid = some document →
        ∃ file, (file, document) ∈ entries := by
  unfold exportCollection at hexport
  simp only [bind_eq_ok] at hexport
  obtain ⟨u, -, documents, hread, hexport⟩ := hexport
  split at hexport
  · cases hexport
  rename_i hne
  simp only [bind_eq_ok, Except.ok.injEq] at hexport
  obtain ⟨entries, hentries, rfl⟩ := hexport
  have hdocuments := mem_readDocuments_whole hreachable hwhole hread
  refine ⟨entries, rfl, ?_, ?_, ?_⟩
  · obtain ⟨document, hmem⟩ := List.exists_mem_of_ne_nil documents hne
    obtain ⟨oid, hstored⟩ := (hdocuments document).1 hmem
    exact ⟨oid, document, hstored⟩
  · intro entry hentry
    obtain ⟨p, hp, hfile⟩ := (mapM_eq_ok_mem hentries entry).1 hentry
    simp only [archiveFile, bind_eq_ok, Except.ok.injEq] at hfile
    obtain ⟨builder, hbuilder, oid, hoid, rfl⟩ := hfile
    have hmem : p.1 ∈ documents := List.fst_mem_of_mem_zipIdx hp
    obtain ⟨stored, hstored⟩ := (hdocuments p.1).1 hmem
    have hnormal := (filedStore_of_reachable hreachable _ _ _ hstored).normal
    obtain ⟨rfl, haccepted⟩ := hnormal.overlay hbuilder
    exact ⟨haccepted, hoid, stored, hstored⟩
  · intro oid document hstored
    have hmem := (hdocuments document).2 ⟨oid, hstored⟩
    rw [← List.zipIdx_map_fst 0 documents] at hmem
    obtain ⟨p, hp, rfl⟩ := List.mem_map.1 hmem
    obtain ⟨entry, hfile⟩ := forall_ok_of_mapM hentries p hp
    have hentry := (mapM_eq_ok_mem hentries entry).2 ⟨p, hp, hfile⟩
    simp only [archiveFile, bind_eq_ok, Except.ok.injEq] at hfile
    obtain ⟨builder, -, file, -, rfl⟩ := hfile
    exact ⟨file, hentry⟩

/-- The archive holds stored documents only. -/
theorem archive_stored {document : Object} (hmem : document ∈ archive.map Prod.snd) :
    Accepted document ∧ ∃ oid, documentAt store options.collection.text oid = some document := by
  obtain ⟨entries, rfl, -, hentries, -⟩ := exportCollection_eq_ok hreachable hwhole hexport
  obtain ⟨entry, hentry, rfl⟩ := List.mem_map.1 hmem
  have hkept : entry ∈ entries := by simpa using mem_setAll hentry
  exact ⟨(hentries entry hkept).1, (hentries entry hkept).2.2⟩

theorem archive_placed {document : Object} (hmem : document ∈ archive.map Prod.snd)
    (hwritable : Writable document) :
    ∃ oid, Placed options.collection.text oid document ∧
      documentAt store options.collection.text oid = some document := by
  obtain ⟨haccepted, oid, hstored⟩ := archive_stored hreachable hwhole hexport hmem
  have hfiled := filedStore_of_reachable hreachable _ _ _ hstored
  obtain ⟨hid, hcollection⟩ := hfiled.own hwritable
  exact ⟨oid, ⟨haccepted, hid, hcollection, hfiled.oid_valid⟩, hstored⟩

theorem archive_ne_nil : archive ≠ [] := by
  intro hnil
  obtain ⟨entries, rfl, ⟨oid, document, hstored⟩, -, hall⟩ :=
    exportCollection_eq_ok hreachable hwhole hexport
  obtain ⟨file, hentry⟩ := hall oid document hstored
  have hlookup : lookup file (setAll entries []) = none := by rw [hnil, lookup_nil]
  rw [lookup_setAll, lookup_nil, Option.or_none, lookup_eq_none_iff] at hlookup
  exact hlookup (List.mem_map.2 ⟨_, List.mem_reverse.2 hentry, rfl⟩)

/-- Of a collection of ordinary documents the archive holds every one. -/
theorem archive_complete
    (hordinary : ∀ oid document, documentAt store options.collection.text oid = some document →
      Writable document)
    {oid : String} {document : Object}
    (hstored : documentAt store options.collection.text oid = some document) :
    document ∈ archive.map Prod.snd := by
  obtain ⟨entries, rfl, -, hentries, hall⟩ := exportCollection_eq_ok hreachable hwhole hexport
  have hown : ∀ entry ∈ entries,
      documentAt store options.collection.text entry.1 = some entry.2 := by
    intro entry hentry
    obtain ⟨-, hoid, stored, hstored⟩ := hentries entry hentry
    have hid := ((filedStore_of_reachable hreachable _ _ _ hstored).own
      (hordinary _ _ hstored)).1
    simp only [getObjectOUID, bind_eq_ok, objectAt_eq_ok, hid, stringAt_eq_ok] at hoid
    obtain ⟨id, hid', hoid⟩ := hoid
    rw [Option.some.injEq, Value.object.injEq] at hid'
    subst hid'
    cases hoid
    exact hstored
  obtain ⟨file, hentry⟩ := hall oid document hstored
  have hfile : lookup file (setAll entries []) = some document := by
    cases hlookup : lookup file (setAll entries []) with
    | none =>
        rw [lookup_setAll, lookup_nil, Option.or_none, lookup_eq_none_iff] at hlookup
        exact absurd (List.mem_map.2 ⟨_, List.mem_reverse.2 hentry, rfl⟩) hlookup
    | some found =>
        have hfound := hown _ (mem_of_lookup_setAll hlookup)
        rw [← hfound, hown _ hentry]
  exact List.mem_map.2 ⟨_, mem_of_lookup hfile, rfl⟩

end Archive

/-! ## Export, then import -/

/-- The files of a directory in some order, each with its time. -/
def Unpacked (archive : Table String Object) (files : List (Clock × Object)) : Prop :=
  (files.map Prod.snd).Perm (archive.map Prod.snd)

section Unpack

variable {archive : Table String Object} {files : List (Clock × Object)}

theorem Unpacked.mem_archive (hunpacked : Unpacked archive files) {file : Clock × Object}
    (hfile : file ∈ files) :
    file.2 ∈ archive.map Prod.snd :=
  hunpacked.mem_iff.1 (List.mem_map_of_mem hfile)

theorem Unpacked.exists_file (hunpacked : Unpacked archive files) {document : Object}
    (hdocument : document ∈ archive.map Prod.snd) :
    ∃ file ∈ files, file.2 = document :=
  List.mem_map.1 (hunpacked.mem_iff.2 hdocument)

/-- The import of files that the builder takes as they are writes them one by one. -/
theorem importCollection_run
    {importOptions : ManageDocumentOperation}
    (hoperation : importOptions.operation = "importcollection") (hne : files ≠ [])
    (haccepted : ∀ file ∈ files, Accepted file.2) (store : Store) :
    importCollection importOptions files store =
      files.forM (writeImported { importOptions with operation := "store", format := .db })
        store := by
  have hconfirm : confirm (importOptions.operation = "importcollection") = .ok () := by
    simp [hoperation, confirm]
  have hfiles : files.mapM importedFile = .ok files := by
    have hfile : ∀ file ∈ files, importedFile file = .ok (id file) := by
      intro file hfile
      simp [importedFile, haccepted file hfile (file.1 3), bind, Except.bind]
    rw [mapM_eq_map hfile, List.map_id]
  have hnonempty : confirm (files ≠ []) = .ok () := by simp [hne, confirm]
  rw [importCollection, bind_run (lift_run hconfirm store), bind_run (lift_run hfiles store),
    if_neg hne, writeDocuments_eq, bind_run (lift_run hnonempty store)]
  rfl

end Unpack

section RoundTrip

variable {store : Store} {clock : Clock} {options importOptions : ManageDocumentOperation}
  {archive : Table String Object} {files : List (Clock × Object)}

/-- An export followed by an import into an empty database leaves the documents of
the collection as they were if and only if none of them is readonly or deleted. -/
theorem importCollection_restores_iff
    (hreachable : Reachable store) (hwhole : WholeCollection options)
    (hexport : exportCollection clock options store = .ok archive)
    (hunpacked : Unpacked archive files)
    (hoperation : importOptions.operation = "importcollection")
    (hfresh : ∀ file ∈ files,
      documentAt store options.collection.text (renewedOid file.1 file.2) = none) :
    (∃ store', importCollection importOptions files [] = .ok () store' ∧
        ∀ name oid, documentAt store' name oid =
          if name = options.collection.text then documentAt store name oid else none) ↔
      ∀ oid document, documentAt store options.collection.text oid = some document →
        Writable document := by
  have hstored : ∀ file ∈ files, Accepted file.2 ∧
      ∃ oid, documentAt store options.collection.text oid = some file.2 := fun file hfile =>
    archive_stored hreachable hwhole hexport (hunpacked.mem_archive hfile)
  have hplaced : ∀ file ∈ files, Writable file.2 →
      ∃ oid, Placed options.collection.text oid file.2 ∧
        documentAt store options.collection.text oid = some file.2 := fun file hfile =>
    archive_placed hreachable hwhole hexport (hunpacked.mem_archive hfile)
  have hne : files ≠ [] := by
    rintro rfl
    exact archive_ne_nil hreachable hwhole hexport (List.map_eq_nil_iff.1 hunpacked.symm.eq_nil)
  have hrun := importCollection_run hoperation hne (fun file hfile => (hstored file hfile).1) []
  have hempty : ∀ name oid, documentAt [] name oid = none := by
    intro name oid
    simp [documentAt, collectionAt]
  constructor
  · rintro ⟨store', himport, hsame⟩ oid document hdocument
    rw [hrun] at himport
    have hafter := hsame options.collection.text oid
    rw [if_pos rfl, hdocument] at hafter
    rcases documentAt_imported (fun file hfile => ⟨(hstored file hfile).1, fun hwritable => by
        obtain ⟨oid, hplace, -⟩ := hplaced file hfile hwritable
        exact ⟨oid, hplace⟩⟩) himport hafter with h | h | ⟨file, hfile, rfl⟩
    · rw [hempty] at h
      cases h
    · exact h
    · rw [hfresh file hfile] at hdocument
      cases hdocument
  · intro hordinary
    have hwritable : ∀ file ∈ files, Writable file.2 := by
      intro file hfile
      obtain ⟨-, oid, hdocument⟩ := hstored file hfile
      exact hordinary oid file.2 hdocument
    obtain ⟨store', himport, hafter⟩ :=
      imports_ordinary (fun file hfile => ⟨hwritable file hfile,
        hplaced file hfile (hwritable file hfile)⟩) []
    refine ⟨store', hrun.trans himport, fun name oid => ?_⟩
    by_cases hplace : ∃ file ∈ files, name = options.collection.text ∧
        Placed options.collection.text oid file.2
    · rw [(hafter name oid).1 hplace]
      obtain ⟨-, -, rfl, -⟩ := hplace
      rw [if_pos rfl]
    · rw [(hafter name oid).2 hplace, hempty]
      split
      · rename_i hname
        subst hname
        cases hdocument : documentAt store options.collection.text oid with
        | none => rfl
        | some document =>
            have hmem := archive_complete hreachable hwhole hexport hordinary hdocument
            obtain ⟨file, hfile, rfl⟩ := hunpacked.exists_file hmem
            have hfiled := filedStore_of_reachable hreachable _ _ _ hdocument
            obtain ⟨hid, hcollection⟩ := hfiled.own (hordinary oid file.2 hdocument)
            have hown : Placed options.collection.text oid file.2 :=
              ⟨(hstored file hfile).1, hid, hcollection, hfiled.oid_valid⟩
            exact absurd ⟨file, hfile, rfl, hown⟩ hplace
      · rfl

end RoundTrip

/-- Options for the whole example collection. -/
def archiveOptions (operation : String) : ManageDocumentOperation :=
  { operation := operation
    format := .db
    collection := ⟨"run", run_ne⟩ }

theorem archiveOptions_whole (operation : String) :
    WholeCollection (archiveOptions operation) := by
  have hcriterion : ∀ key, criterion key notprovided = [] := fun key => if_pos rfl
  simp [WholeCollection, ManageDocumentOperation.queryFilterToJsonData, archiveOptions, hcriterion]

theorem importCollection_restores_example :
    ∃ archive, exportCollection exampleClock (archiveOptions "exportcollection") exampleStore =
        .ok archive ∧ Unpacked archive [(exampleClock, exampleDocument)] ∧
      ((∃ store', importCollection (archiveOptions "importcollection")
          [(exampleClock, exampleDocument)] [] = .ok () store' ∧
        ∀ name oid, documentAt store' name oid =
          if name = "run" then documentAt exampleStore name oid else none) ↔
      ∀ oid document, documentAt exampleStore "run" oid = some document →
        Writable document) := by
  have hexport : exportCollection exampleClock (archiveOptions "exportcollection") exampleStore =
      .ok [("cccccccccccccccccccccccc", exampleDocument)] := by
    decide +kernel
  have hunpacked : Unpacked [("cccccccccccccccccccccccc", exampleDocument)]
      [(exampleClock, exampleDocument)] := List.Perm.refl _
  have hfresh : documentAt exampleStore "run" (renewedOid exampleClock exampleDocument) = none := by
    decide +kernel
  have hreachable : Reachable exampleStore := ⟨_, rfl⟩
  exact ⟨_, hexport, hunpacked, importCollection_restores_iff hreachable
    (archiveOptions_whole "exportcollection") hexport hunpacked rfl
    (List.forall_mem_singleton.2 hfresh)⟩

/-- The released document comes back under another id. -/
theorem importCollection_moves_released :
    Reachable releasedStore ∧ WholeCollection (archiveOptions "exportcollection") ∧
      exportCollection exampleClock (archiveOptions "exportcollection") releasedStore =
        .ok [("cccccccccccccccccccccccc", releasedDocument)] ∧
      documentAt (after (importCollection (archiveOptions "importcollection")
          [(exampleClock, releasedDocument)]) []) "run" "bbbbbbbbbbbbbbbbbbbbbbbb" =
        some releasedDocument ∧
      ¬ ∃ store', importCollection (archiveOptions "importcollection")
          [(exampleClock, releasedDocument)] [] = .ok () store' ∧
        ∀ name oid, documentAt store' name oid =
          if name = "run" then documentAt releasedStore name oid else none := by
  have hexport : exportCollection exampleClock (archiveOptions "exportcollection") releasedStore =
      .ok [("cccccccccccccccccccccccc", releasedDocument)] := by
    decide +kernel
  have hmoved : documentAt (after (importCollection (archiveOptions "importcollection")
      [(exampleClock, releasedDocument)]) []) "run" "bbbbbbbbbbbbbbbbbbbbbbbb" =
        some releasedDocument := by
    decide +kernel
  have hfree : documentAt releasedStore "run" "bbbbbbbbbbbbbbbbbbbbbbbb" = none := by
    decide +kernel
  refine ⟨releasedStore_reachable, archiveOptions_whole _, hexport, hmoved, ?_⟩
  rintro ⟨store', himport, hsame⟩
  have hplace := hsame "run" "bbbbbbbbbbbbbbbbbbbbbbbb"
  rw [if_pos rfl, hfree] at hplace
  rw [after_of_ok himport, hplace] at hmoved
  cases hmoved

end ArtdaqDatabase
