import ArtdaqDatabase.ApiCalls
import ArtdaqDatabase.ManagementFrame
import ArtdaqDatabase.VersionSelection
import ArtdaqDatabase.WrittenData

/-!
# Overwriting a version

`overwriteVersion` reads the record of a version, puts the data of a new record in
the place of its own, and sends it through the write of a database record, with
the options of the search.  These name the version and the entity once more, and
no configuration, which is filed as the configuration `notprovided`.
-/

namespace ArtdaqDatabase

open OrderedTable InvertedIndex InPlaceUpdate

/-! ## The options of a version -/

/-- What a search for the version finds. -/
def findVersion (collection version entity : String) (store : Store) :
    Except Failure (List Object) := do
  let options ← versionOptions .db collection version entity
  readDocuments (searchPayload options) store

/-- The options name what they are given, and nothing else. -/
structure NamesVersion (collection version entity : String) (options : ManageDocumentOperation) :
    Prop where
  collection : options.collection.text = collection
  version : options.version.text = version
  entity : entity ≠ "" → options.entity.text = entity
  queryFilter : options.queryFilter = none
  configuration : options.configuration = notprovided
  run : options.run = notprovided

theorem versionOptions_names
    {format : DataFormat} {collection version entity : String} {options : ManageDocumentOperation}
    (hoptions : versionOptions format collection version entity = .ok options) :
    NamesVersion collection version entity options ∧ options.operation = "load" ∧
      options.format = format ∧ ∀ format', versionOptions format' collection version entity =
        .ok { options with format := format' } := by
  unfold versionOptions optionText at hoptions ⊢
  by_cases hversion : version = ""
  · simp [hversion] at hoptions
  · by_cases hcollection : collection = ""
    · simp [hversion, hcollection, bind, Except.bind] at hoptions
    · simp only [hversion, hcollection, if_false, dite_false, bind, Except.bind,
        Except.ok.injEq] at hoptions ⊢
      subst hoptions
      refine ⟨⟨rfl, rfl, fun hentity => ?_, rfl, rfl, rfl⟩, rfl, rfl, fun _ => rfl⟩
      rw [dif_neg hentity]

theorem NamesVersion.filter
    {collection version entity : String} {options : ManageDocumentOperation}
    (hnames : NamesVersion collection version entity options) (hload : options.operation = "load") :
    writeFilter (searchPayload options) = versionCriteria options.version options.entity := by
  have hfilter : options.queryFilterToJsonData =
      .object (versionCriteria options.version options.entity) := by
    rw [ManageDocumentOperation.queryFilterToJsonData, hnames.queryFilter, hload,
      hnames.configuration]
    simp [criterion, versionCriteria]
  apply writeFilter_of_lookup
  rw [hfilter]
  rfl

theorem mapM_readFile_singleton
    {c : Collection} {oids : List String} {document : Object}
    (hread : oids.mapM (readFile c) = .ok [document]) :
    ∃ oid, oids = [oid] ∧ c.stored oid = some document := by
  cases oids with
  | nil => cases hread
  | cons oid oids =>
      simp only [List.mapM_cons, bind_eq_ok, pure, Except.pure, Except.ok.injEq,
        List.cons.injEq] at hread
      obtain ⟨first, hfirst, rest, hrest, rfl, rfl⟩ := hread
      cases oids with
      | nil =>
          refine ⟨oid, rfl, ?_⟩
          unfold readFile at hfirst
          cases hstored : c.stored oid with
          | none => simp [hstored] at hfirst
          | some d =>
              simp only [hstored, Except.ok.injEq] at hfirst
              rw [hfirst]
      | cons next oids =>
          simp only [List.mapM_cons, bind_eq_ok, pure, Except.pure, Except.ok.injEq] at hrest
          obtain ⟨_, -, _, -, hcons⟩ := hrest
          cases hcons

/-- A search that finds one document has found its id. -/
theorem findVersion_singleton
    {collection version entity : String} {store : Store} {document : Object}
    (honly : findVersion collection version entity store = .ok [document]) :
    ∃ options oid, versionOptions .db collection version entity = .ok options ∧
      findDocumentIDs (collectionAt collection store).index
        (versionCriteria options.version options.entity) = .ok [oid] ∧
      documentAt store collection oid = some document := by
  simp only [findVersion, bind_eq_ok] at honly
  obtain ⟨options, hoptions, hread⟩ := honly
  obtain ⟨hnames, hload, -⟩ := versionOptions_names hoptions
  simp only [readDocuments, readCollectionName_own hnames.queryFilter, bind_eq_ok,
    Except.ok.injEq, hnames.filter hload] at hread
  obtain ⟨name, rfl, oids, hfound, hfiles⟩ := hread
  obtain ⟨oid, rfl, hstored⟩ := mapM_readFile_singleton hfiles
  rw [hnames.collection] at hfound hstored
  exact ⟨options, oid, hoptions, hfound, hstored⟩

/-- A search that finds one id reads its document. -/
theorem selectDocument_of_found
    {collection version entity : String} {options : ManageDocumentOperation}
    (hnames : NamesVersion collection version entity options) (hload : options.operation = "load")
    {store : Store} {oid : String} {document : Object}
    (hfound : findDocumentIDs (collectionAt collection store).index
      (versionCriteria options.version options.entity) = .ok [oid])
    (hstored : documentAt store collection oid = some document) :
    selectDocument options store = .ok document := by
  have hfile : readFile (collectionAt collection store) oid = .ok document := by
    rw [readFile, show (collectionAt collection store).stored oid = some document from hstored]
  simp only [selectDocument, readDocument, readDocuments,
    readCollectionName_own hnames.queryFilter, hnames.filter hload, hnames.collection, hfound,
    bind, Except.bind, List.mapM_cons, List.mapM_nil, hfile, pure, Except.pure, List.foldlM_nil]

/-! ## The record that is written -/

/-- An entry of that name is not added once more. -/
theorem addNamed_of_named
    {entries : List Value} {name : String} (hname : name ∈ namesOf entries) (env : Environment) :
    addNamed (stamped env name) entries = entries := by
  have hstamped : nameOf (stamped env name) = .ok name := rfl
  have hcontains : containsName (stamped env name) entries ≠ .ok false := by
    induction entries with
    | nil => cases hname
    | cons entry entries ih =>
        rw [containsName]
        cases hentry : nameOf entry with
        | error e => simp [bind, Except.bind]
        | ok found =>
            by_cases hfound : found = name
            · simp [hstamped, hfound, bind, Except.bind]
            · have hrest : name ∈ namesOf entries := by
                simpa [namesOf, hentry, Except.toOption, Ne.symm hfound] using hname
              simpa [hstamped, hfound, bind, Except.bind] using ih hrest
  unfold addNamed
  split
  · rename_i hfalse
    exact absurd hfalse hcontains
  · rfl

/-- The record that `overwriteVersion` hands to the write. -/
def withPayload (new document : Object) : Object :=
  set "document" (.object (payloadSection new)) document

theorem withNewData_json
    {c : Conversions} {clock : Clock} {new document updated : Object}
    (hupdated : withNewData c clock (.json (.object new)) document = .ok updated) :
    updated = withPayload new document := by
  simp only [withNewData, wrapData, bind_eq_ok, Except.ok.injEq] at hupdated
  obtain ⟨wrapped, rfl, record, hrecord, section_, hsection, rfl⟩ := hupdated
  rw [valueAt_eq_ok, (createFromData_wrapped hrecord).1, Option.some.injEq] at hsection
  rw [← hsection]
  rfl

/-- What becomes of the document: its data are new, the configuration `notprovided`
is filed, and the rest is as before. -/
structure PayloadReplaced (env : Environment) (new document document' : Object) : Prop where
  payload : lookup "document" document' = some (.object (payloadSection new))
  configurations : ∃ entries, lookup "configurations" document = some (.array entries) ∧
    lookup "configurations" document' =
      some (.array (addNamed (stamped env "notprovided") entries))
  log : LogExtends document document'
  others : ∀ k, k ∉ ["document", "configurations", "bookkeeping"] →
    lookup k document' = lookup k document

section Record

variable {collection version entity oid : String} {options : ManageDocumentOperation}
  {new document : Object}

theorem lookup_withPayload {k : String} (hk : k ≠ "document") :
    lookup k (withPayload new document) = lookup k document :=
  lookup_set_of_ne hk _ _

theorem normalRecord_withPayload (hnormal : NormalRecord document) :
    NormalRecord (withPayload new document) := by
  have haccepts : ovlDocument.Accepts (.object (payloadSection new)) :=
    fun env => ovlDocument_payloadSection env new
  exact hnormal.set_section
    (s := ⟨"document", valueDefault (.object []), false, ovlDocument⟩) (by simp [recordSections])
    (by decide) haccepts.normal fun h => absurd h (by decide)

theorem writable_withPayload (hwritable : Writable document) :
    Writable (withPayload new document) := by
  rw [Writable, isReadonlyOrDeleted_congr (lookup_withPayload (by decide))]
  exact hwritable

/-- The options of the search change no more than the configurations. -/
theorem payloadReplaced_settled
    (hnames : NamesVersion collection version entity options) (hentity : entity ≠ "")
    (haccepted : Accepted (withPayload new document)) (hwritable : Writable document)
    (hversion : lookup "version" document = some (.string version))
    (hcollection : lookup "collection" document = some (.string collection))
    (hcarried : entity ∈ documentEntities document) (clock : Clock) :
    PayloadReplaced (clock 4) new document
      (settled clock options (withPayload new document)) := by
  have hwritable' : Writable (withPayload new document) := writable_withPayload hwritable
  have heffects := optionEdits_effects (clock.drop 4) options haccepted hwritable'
  rw [settled, if_pos hwritable']
  constructor
  · rw [heffects.others "document" (by decide), withPayload, lookup_set_self]
  · have hsection : listSection "configurations" ovlConfiguration ∈ recordSections := by
      simp [recordSections, listSection]
    obtain ⟨entries, hentries, -⟩ := haccepted.list hsection
    have hname : options.configuration.text = "notprovided" :=
      congrArg OptionText.text hnames.configuration
    refine ⟨entries, by rw [← hentries, lookup_withPayload (by decide)], ?_⟩
    rw [heffects.configurations entries hentries, hname]
    rfl
  · obtain ⟨b, updates, entries, hb, hupdates, hb'⟩ := heffects.kept.log
    rw [lookup_withPayload (by decide)] at hb
    exact ⟨b, updates, entries, hb, hupdates, hb'⟩
  · intro k hk
    simp only [List.mem_cons, List.not_mem_nil, or_false, not_or] at hk
    by_cases hoption : k ∈ optionKeys
    · simp only [optionKeys, List.mem_cons, List.not_mem_nil, or_false] at hoption
      rcases hoption with rfl | rfl | rfl | rfl | rfl | rfl
      · exact absurd rfl hk.2.1
      · rw [heffects.version, hversion, hnames.version]
      · rw [heffects.collection, hcollection, hnames.collection]
      · have hsection : listSection "entities" ovlEntity ∈ recordSections := by
          simp [recordSections, listSection]
        obtain ⟨entries, hentries, -⟩ := haccepted.list hsection
        have hlookup : lookup "entities" document = some (.array entries) := by
          rw [← hentries, lookup_withPayload (by decide)]
        rw [documentEntities, sectionEntries, hlookup] at hcarried
        rw [heffects.entities entries hentries, hnames.entity hentity,
          addNamed_of_named hcarried, hlookup]
      · have hsection : listSection "runs" ovlRun ∈ recordSections := by
          simp [recordSections, listSection]
        obtain ⟨entries, hentries, -⟩ := haccepted.list hsection
        rw [heffects.runs entries hentries, if_pos hnames.run, ← hentries,
          lookup_withPayload (by decide)]
      · exact absurd rfl hk.2.2
    · rw [heffects.others k hoption, lookup_withPayload hk.1]

/-- A write of a database record that succeeds has overlaid it. -/
theorem overlay_of_writePayload
    {c : Conversions} {clock : Clock} {options : ManageDocumentOperation} {record : Object}
    {written : Value × Text} (hformat : options.format = .db)
    (hwritten : writePayload c clock options (.json (.object record)) = .ok written) :
    ∃ record', ovlDatabaseRecord (clock 0) record = .ok record' := by
  simp only [writePayload, bind_eq_ok] at hwritten
  obtain ⟨u, -, hwritten⟩ := hwritten
  rw [if_neg (by simp)] at hwritten
  simp only [bind_eq_ok, draftDocument, hformat, Text.document, Except.ok.injEq] at hwritten
  obtain ⟨draft, ⟨data, rfl, record', hrecord, -⟩, -⟩ := hwritten
  exact ⟨record', hrecord⟩

/-- The write replaces the document at its place. -/
theorem writeDocument_withPayload
    {c : Conversions} {clock : Clock} {store store' : Store} {text : Text}
    (hnames : NamesVersion collection version entity options) (hformat : options.format = .db)
    (hoperation : options.operation = "overwritedocument") (hfiled : Filed collection oid document)
    (hwritable : Writable document) (habsent : lookup "payload" document = none)
    (hwrite : detail.writeDocument c clock options
      (.json (.object (withPayload new document))) store = .ok text store') :
    Accepted (withPayload new document) ∧
      Placed collection oid (settled clock options (withPayload new document)) ∧
      store' = writeStep store (clock 9, filedPayload options
        (settled clock options (withPayload new document)) (.object [("$oid", .string oid)])) := by
  have hafter := after_writeDocument_detail c clock options
    (.json (.object (withPayload new document))) store
  rw [after_of_ok hwrite] at hafter
  have haccepted : Accepted (withPayload new document) := by
    rw [detail.writeDocument, bind_run_iff] at hwrite
    obtain ⟨written, unchanged, hwritten, -⟩ := hwrite
    obtain ⟨record, hrecord⟩ := overlay_of_writePayload hformat (lift_run_iff.1 hwritten).1
    exact ((normalRecord_withPayload hfiled.normal).overlay hrecord).2
  have hwritable' : Writable (withPayload new document) := writable_withPayload hwritable
  have hid : lookup "_id" (settled clock options (withPayload new document)) =
      some (.object [("$oid", .string oid)]) := by
    have hkept : lookup "_id" (builderEdits (withPayload new document)
        (optionEdits (clock.drop 4) options)) = lookup "_id" (withPayload new document) :=
      lookup_builderEdits_of_untouched (fun p hp => touchedKeys_optionEdits hp (by decide)) _
    rw [settled, if_pos hwritable', hkept, lookup_withPayload (by decide)]
    exact (hfiled.own hwritable).1
  have hcollection : lookup "collection" (settled clock options (withPayload new document)) =
      some (.string collection) := by
    rw [settled, if_pos hwritable', collection_optionEdits _ _ haccepted hwritable',
      hnames.collection]
  refine ⟨haccepted, ⟨accepted_settled haccepted, hid, hcollection, hfiled.oid_valid⟩, ?_⟩
  rw [hafter, writePayload_settled hformat (Or.inr hoperation) haccepted
    (by rw [lookup_withPayload (by decide), habsent]) hwritable' hid]

end Record

/-! ## The search afterwards -/

/-- A document that is filed at its own place is listed in the place of the old one. -/
theorem relisted_writeStep
    (env : Environment) {store : Store} (options : ManageDocumentOperation)
    {collection version oid : String} {old document : Object} (hne : version ≠ "")
    (hplaced : Placed collection oid document)
    (hstored : documentAt store collection oid = some old)
    (hold : lookup "version" old = some (.string version))
    (hdocument : lookup "version" document = some (.string version)) :
    Relisted oid version (collectionAt collection store).index
      (collectionAt collection (writeStep store
        (env, filedPayload options document (.object [("$oid", .string oid)])))).index := by
  have hchild : findChildDocument "document"
      (filedPayload options document (.object [("$oid", .string oid)])) =
        .ok (.object document) := findChildDocument_eq_ok.2 ⟨_, document, rfl, rfl, rfl⟩
  obtain ⟨request, hrequest, rfl, rfl, hnew, rfl⟩ :=
    writeRequest_own hplaced hchild (writeFilter_of_lookup rfl) env
  have hcheck : checkInsert request (collectionAt request.collection store) = .ok () := by
    simp [checkInsert, hnew]
  have hfile : (collectionAt request.collection store).stored request.oid = some old := hstored
  rw [writeStep, after_writeDocument hrequest, collectionAt_set, if_pos rfl,
    Collection.afterWrite, hcheck]
  dsimp only
  rw [Collection.replaced, Collection.indexWithout, hnew, hfile]
  exact relisted_indexed hne request.oid_ne hold hdocument _

/-- The call goes on with the record that it has read. -/
theorem overwriteVersion_run
    {c : Conversions} {clock : Clock} {store : Store} {collection version entity : String}
    {options : ManageDocumentOperation} {document : Object} {data : Text}
    (hoptions : versionOptions .db collection version entity = .ok options)
    (hread : detail.readDocument c options store = .ok (.json (.object document))) :
    ConfigurationInterface.overwriteVersion c clock collection version entity (.ok data) store =
      (lift (withNewData c clock data document) >>= fun updated =>
        detail.writeDocument c (clock.drop 2) { options with operation := "overwritedocument" }
          (.json (.object updated))) store := by
  have hdocument : Text.document (.json (.object document)) = .ok document := rfl
  rw [ConfigurationInterface.overwriteVersion, bind_run (lift_run hoptions store),
    bind_run (fetch_ok hread), bind_run (lift_ok data store),
    bind_run (lift_run hdocument store)]

def newData : Object :=
  [("payload", .object [("gain", .integer 3)])]

/-- The call that overwrites the example document. -/
def overwriting : InPlace Failure Store Text :=
  ConfigurationInterface.overwriteVersion noConversions exampleClock "run" "v1" "e1"
    (.ok (.json (.object newData)))

theorem overwriting_returns :
    ∃ text, overwriting exampleStore = .ok text (after overwriting exampleStore) := by
  have hreturns : (overwriting.run' exampleStore).isSome = true := by
    decide +kernel
  cases hrun : overwriting exampleStore with
  | ok text store => exact ⟨text, by rw [after_of_ok hrun]⟩
  | error e store =>
      delta EStateM.run' EStateM.run at hreturns
      rw [hrun] at hreturns
      cases hreturns

end ArtdaqDatabase
