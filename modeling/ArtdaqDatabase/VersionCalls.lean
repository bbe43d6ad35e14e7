import ArtdaqDatabase.OverwriteVersion
import ArtdaqDatabase.RegisteredVersions

/-!
# The calls of the interface of versions

`storeVersion`, `overwriteVersion`, `markVersionReadonly` and `loadVersion` on data in
the format `json`.  On a store that holds a registry each answers what the registry
answers, and leaves a store that holds what the registry becomes.
-/

namespace ArtdaqDatabase

open OrderedTable InPlaceUpdate WidenedSearch

namespace ConfigurationInterface

/-- `storeVersion`; `data` is what the serializer of the configuration writes. -/
def storeVersion (c : Conversions) (clock : Clock) (format : DataFormat)
    (collection version entity : String) (data : Except Failure Text) :
    InPlace Failure Store Text := do
  let options ← lift (versionOptions format collection version entity)
  let data ← lift data
  detail.writeDocument c clock { options with operation := "store" } data

/-- `markVersionReadonly`. -/
def markVersionReadonly (c : Conversions) (clock : Clock) (collection version entity : String) :
    InPlace Failure Store Text := do
  let options ← lift (versionOptions .db collection version entity)
  detail.markDocumentReadonly c clock { options with operation := "markreadonly" }

end ConfigurationInterface

/-! ## The calls on a store -/

/-- Whether the call succeeds, and the store it leaves. -/
def attempt (call : InPlace Failure Store Text) (store : Store) : VersionReply × Store :=
  match call store with
  | .ok _ store' => (.done, store')
  | .error _ store' => (.refused, store')

def VersionCall.onStore (c : Conversions) (store : Store) : VersionCall → VersionReply × Store
  | .store clock name data =>
      attempt (ConfigurationInterface.storeVersion c clock .json name.collection name.version
        name.entity (.ok (.json (.object data)))) store
  | .overwrite clock name data =>
      attempt (ConfigurationInterface.overwriteVersion c clock name.collection name.version
        name.entity (.ok (.json (.object data)))) store
  | .markReadonly clock name =>
      attempt (ConfigurationInterface.markVersionReadonly c clock name.collection name.version
        name.entity) store
  | .load name =>
      match ConfigurationInterface.loadVersion c .json name.collection name.version name.entity
        store with
      | .ok (.json (.object data)) => (.loaded data, store)
      | _ => (.refused, store)

theorem attempt_ok {call : InPlace Failure Store Text} {store store' : Store} {text : Text}
    (h : call store = .ok text store') : attempt call store = (.done, store') := by
  rw [attempt, h]

theorem attempt_error {call : InPlace Failure Store Text} {store store' : Store} {e : Failure}
    (h : call store = .error e store') : attempt call store = (.refused, store') := by
  rw [attempt, h]

/-! ## The options of a call -/

theorem VersionName.entityText_eq (name : VersionName) :
    name.entityText = (if h : name.entity = "" then notprovided else ⟨name.entity, h⟩ :
      OptionText).text := by
  unfold entityText
  split <;> rfl

/-- A call that names a collection and a version has its options. -/
theorem versionOptions_of_named {name : VersionName} (hnamed : name.Named) (format : DataFormat) :
    ∃ options, versionOptions format name.collection name.version name.entity = .ok options ∧
      Asks name options ∧ options.operation = "load" ∧ options.format = format := by
  obtain ⟨hversion, hcollection⟩ := hnamed
  simp only [versionOptions, optionText, hversion, hcollection, if_false, dite_false, bind,
    Except.bind]
  exact ⟨_, rfl, ⟨rfl, rfl, name.entityText_eq.symm, rfl, rfl, rfl⟩, rfl, rfl⟩

theorem versionOptions_of_not_named {name : VersionName} (hnamed : ¬ name.Named)
    (format : DataFormat) :
    ∃ e, versionOptions format name.collection name.version name.entity = .error e := by
  unfold versionOptions optionText
  by_cases hversion : name.version = ""
  · exact ⟨_, by rw [if_pos hversion]⟩
  · have hcollection : name.collection = "" := by
      by_contra hne
      exact hnamed ⟨hversion, hne⟩
    rw [if_neg hversion, dif_pos hcollection]
    exact ⟨_, rfl⟩

/-! ## The write of a call -/

section Write

variable {c : Conversions} {clock : Clock} {options : ManageDocumentOperation} {conf text : Text}
  {payload : Value} {request : WriteRequest} {store : Store}
  (hwritten : writePayload c clock options conf = .ok (payload, text))
  (hrequest : writeRequest (clock 9) payload = .ok request)
include hwritten hrequest

theorem writeDocument_detail_ok
    (hcheck : checkInsert request (collectionAt request.collection store) = .ok ()) :
    detail.writeDocument c clock options conf store =
      .ok text (writeStep store (clock 9, payload)) := by
  have hrun := writeDocument_run hrequest hcheck
  have hstep : writeStep store (clock 9, payload) = _ := after_of_ok hrun
  rw [detail.writeDocument, bind_run (lift_run hwritten store), bind_run hrun, hstep]
  rfl

theorem writeDocument_detail_refused
    {e : Failure}
    (hcheck : checkInsert request (collectionAt request.collection store) = .error e) :
    detail.writeDocument c clock options conf store =
      .error e (writeStep store (clock 9, payload)) := by
  have hrun := writeDocument_refused hrequest hcheck
  have hstep : writeStep store (clock 9, payload) = _ := after_of_error hrun
  rw [detail.writeDocument, bind_run (lift_run hwritten store), bind_error hrun, hstep]

end Write

/-- The ids under which a call may file new documents. -/
def VersionCall.generated : VersionCall → List (String × String)
  | .store clock name _ => [(name.collection, (clock 9).providerOid)]
  | _ => []

/-- The call is answered as by the registry, and the store holds what that becomes; other
ids stay unused. -/
def AnswersAs (c : Conversions) (store : Store) (r : Registry) (call : VersionCall) : Prop :=
  (call.onStore c store).1 = (r.answer call).1 ∧
    Represents (call.onStore c store).2 (r.answer call).2 ∧
    ∀ name oid, documentAt store name oid = none → (name, oid) ∉ call.generated →
      documentAt (call.onStore c store).2 name oid = none

theorem documentAt_writeStep_none
    {env : Environment} {arg : Value} {request : WriteRequest}
    (hrequest : writeRequest env arg = .ok request) {store : Store} {name oid : String}
    (hnone : documentAt store name oid = none)
    (hother : (name, oid) ≠ (request.collection, request.oid)) :
    documentAt (writeStep store (env, arg)) name oid = none := by
  rw [documentAt_writeStep hrequest, if_neg, hnone]
  rintro ⟨rfl, rfl, -⟩
  exact hother rfl

theorem readDocument_unselected
    {c : Conversions} {options : ManageDocumentOperation} {store : Store} {e : Failure}
    (hload : options.operation = "load") (hselect : selectDocument options store = .error e) :
    detail.readDocument c options store = .error e := by
  simp [detail.readDocument, hload, hselect, confirm, bind, Except.bind]

/-! ## Storing -/

section Calls

variable {store : Store} {r : Registry} (hstore : Represents store r) (c : Conversions)
include hstore

theorem Represents.versionsListed (collection : String) :
    VersionsListed (collectionAt collection store) := by
  have hc := hstore.tidy.collectionAt collection
  constructor
  · intro oid document hdocument
    obtain ⟨sections⟩ := hstore.tidy.indexable collection oid document hdocument
    exact ⟨sections.version, sections.version_lookup, sections.version_ne⟩
  · exact hc.ids
  · ext ⟨version, id⟩
    exact hc.mem_version version id

theorem Represents.hasVersion_iff (collection version : String) :
    HasVersion (collectionAt collection store) version ↔ r collection version ≠ none := by
  constructor
  · rintro ⟨oid, document, hdocument, hversion⟩
    obtain ⟨version', entry, hentry, hregisters⟩ := hstore.registered _ _ _ hdocument
    rw [hregisters.version, Option.some.injEq, Value.string.injEq] at hversion
    rw [← hversion, hentry]
    simp
  · intro hentry
    obtain ⟨entry, hentry⟩ := Option.ne_none_iff_exists'.1 hentry
    obtain ⟨oid, document, hdocument, hregisters⟩ := hstore.stored _ _ _ hentry
    exact ⟨oid, document, hdocument, hregisters.version⟩

/-- A write that is refused leaves a store that holds the same registry. -/
theorem Represents.writeStep_refused
    {env : Environment} {arg : Value} {request : WriteRequest}
    (hrequest : writeRequest env arg = .ok request) {e : Failure}
    (hcheck : checkInsert request (collectionAt request.collection store) = .error e) :
    Represents (ArtdaqDatabase.writeStep store (env, arg)) r := by
  have hdocuments (name oid : String) :
      documentAt (ArtdaqDatabase.writeStep store (env, arg)) name oid =
        documentAt store name oid := by
    rw [documentAt_writeStep hrequest]
    simp [hcheck]
  have hlisted : ListedStore (ArtdaqDatabase.writeStep store (env, arg)) := by
    rw [ArtdaqDatabase.writeStep, after_writeDocument hrequest, Collection.afterWrite, hcheck]
    exact hstore.tidy.toListedStore.set (hstore.tidy.collectionAt request.collection)
  constructor
  · refine ⟨hlisted, ?_, ?_⟩
    · simpa only [hdocuments] using hstore.tidy.placed
    · simpa only [hdocuments] using hstore.tidy.indexable
  · simpa only [hdocuments] using hstore.registered
  · simpa only [hdocuments] using hstore.stored
  · simpa only [hdocuments] using hstore.unique

/-- New data are registered, unless the version is there. -/
theorem Represents.answersAs_store
    {clock : Clock} {name : VersionName} (data : Object)
    (hfresh : documentAt store name.collection (clock 9).providerOid = none) :
    AnswersAs c store r (.store clock name data) := by
  by_cases hnamed : name.Named
  swap
  · obtain ⟨e, he⟩ := versionOptions_of_not_named hnamed .json
    have hrun : ConfigurationInterface.storeVersion c clock .json name.collection name.version
        name.entity (.ok (.json (.object data))) store = .error e store :=
      bind_error (lift_run_error he store)
    rw [AnswersAs, VersionCall.onStore, attempt_error hrun, Registry.answer,
      if_neg fun h => hnamed h.1]
    exact ⟨rfl, hstore, fun _ _ hnone _ => hnone⟩
  obtain ⟨found, hfound, hasksFound, -, hformat⟩ := versionOptions_of_named hnamed .json
  obtain ⟨options, hoptions⟩ : ∃ options, options = { found with operation := "store" } := ⟨_, rfl⟩
  have hasks : Asks name options := by
    rw [hoptions]
    exact ⟨hasksFound.collection, hasksFound.version, hasksFound.entity, hasksFound.queryFilter,
      hasksFound.configuration, hasksFound.run⟩
  have hrun : ConfigurationInterface.storeVersion c clock .json name.collection name.version
      name.entity (.ok (.json (.object data))) store =
        detail.writeDocument c clock options (.json (.object data)) store := by
    rw [ConfigurationInterface.storeVersion, bind_run (lift_run hfound store),
      bind_run (lift_ok _ store), hoptions]
  have hwritten := writePayload_data clock options data c (by rw [hoptions, ← hformat])
    (by rw [hoptions])
  obtain ⟨request, hrequest, hcollection, hoid, hnew, huser, hdocument⟩ :=
    writeRequest_data clock options data hasks.filter
      (lookup_append_none (criterion_lookup (by decide) _) (criterion_lookup (by decide) _))
  have hplaced : Placed request.collection request.oid request.document := by
    rw [hcollection, hoid, hdocument]
    exact placed_filedData clock options data
  have hregisters : Registers request.document name.version ⟨{name.entityText}, false, data⟩ := by
    obtain ⟨hpayload, hwhole⟩ := payload_filedData clock options data
    rw [hdocument]
    refine ⟨?_, fun entity => ?_, writable_filedData clock options data, hpayload, hwhole⟩
    · rw [version_filedData, hasks.version]
    · rw [documentEntities_filedData, hasks.entity]
      simp
  have huserVersion : lookup "version" request.userDocument = some (.string name.version) := by
    rw [huser, (optionRecord_effects clock options data).version, hasks.version]
  have habsent : documentAt store request.collection request.oid = none := by
    rw [hcollection, hoid, hasks.collection]
    exact hfresh
  have hcheck := checkInsert_iff (hstore.versionsListed request.collection) hrequest huserVersion
    hnamed.1 habsent
  rw [hnew, hstore.hasVersion_iff, hcollection, hasks.collection] at hcheck
  rw [AnswersAs, VersionCall.onStore, Registry.answer]
  by_cases hfree : r name.collection name.version = none
  · have hpassed : checkInsert request (collectionAt request.collection store) = .ok () := by
      rw [hcollection, hasks.collection]
      exact hcheck.2 fun _ h => h hfree
    have hwrites := writeDocument_detail_ok hwritten hrequest hpassed
    have hindexable : Indexable request.document := by
      rw [hdocument]
      exact indexable_filedData clock options data hasks.run
    have hmoved : Represents
        (ArtdaqDatabase.writeStep store (clock 9, dataPayload clock options data))
        (r.move request.collection none name.version ⟨{name.entityText}, false, data⟩) :=
      hstore.writeStep hrequest hpassed hplaced hindexable hregisters (by simp [habsent])
        (by simp [habsent]) fun oid document hstored hversion => by
        have hhas : HasVersion (collectionAt name.collection store) name.version := by
          rw [hcollection, hasks.collection] at hstored
          exact ⟨oid, document, hstored, hversion⟩
        exact absurd hfree ((hstore.hasVersion_iff _ _).1 hhas)
    rw [attempt_ok (hrun.trans hwrites), if_pos ⟨hnamed, hfree⟩]
    rw [hcollection, hasks.collection] at hmoved
    refine ⟨rfl, hmoved, fun name' oid hnone hother => documentAt_writeStep_none hrequest hnone ?_⟩
    rw [hcollection, hoid, hasks.collection]
    simpa [VersionCall.generated] using hother
  · cases hresult : checkInsert request (collectionAt request.collection store) with
    | ok u =>
        rw [hcollection, hasks.collection] at hresult
        exact absurd hfree (hcheck.1 hresult rfl)
    | error e =>
        have hwrites := writeDocument_detail_refused hwritten hrequest hresult
        rw [attempt_error (hrun.trans hwrites), if_neg fun h => hfree h.2]
        refine ⟨rfl, hstore.writeStep_refused hrequest hresult,
          fun name' oid hnone hother => documentAt_writeStep_none hrequest hnone ?_⟩
        rw [hcollection, hoid, hasks.collection]
        simpa [VersionCall.generated] using hother

/-! ## Loading -/

/-- The data of the version that is taken are loaded, unless they are empty. -/
theorem Represents.answersAs_load (name : VersionName) : AnswersAs c store r (.load name) := by
  have hrefused (e : Failure) (h : ConfigurationInterface.loadVersion c .json name.collection
      name.version name.entity store = .error e) :
      (VersionCall.load name).onStore c store = (.refused, store) := by
    rw [VersionCall.onStore, h]
  rw [AnswersAs, Registry.answer]
  by_cases hnamed : name.Named
  swap
  · obtain ⟨e, he⟩ := versionOptions_of_not_named hnamed .json
    have hload : ConfigurationInterface.loadVersion c .json name.collection name.version
        name.entity store = .error e := by
      rw [ConfigurationInterface.loadVersion, he]
      rfl
    rw [hrefused e hload, Registry.select, if_neg hnamed]
    exact ⟨rfl, hstore, fun _ _ hnone _ => hnone⟩
  obtain ⟨options, hoptions, hasks, hload, hformat⟩ := versionOptions_of_named hnamed .json
  have hread : ConfigurationInterface.loadVersion c .json name.collection name.version name.entity
      store = detail.readDocument c options store := by
    rw [ConfigurationInterface.loadVersion, hoptions]
    rfl
  rcases hstore.select_cases hasks hnamed with
    ⟨version, entry, oid, document, hselect, -, hregisters, hselected⟩ | ⟨-, hselect, e, hselected⟩
  · rw [hselect]
    dsimp only
    by_cases hempty : entry.data = []
    · have hnothing : ∃ e, detail.readDocument c options store = .error e := by
        have hsection : objectAt "document" document = .ok (payloadSection []) := by
          rw [objectAt_eq_ok, hregisters.data, hempty]
        have hdata : objectAt "data" (payloadSection []) = .ok [] := objectAt_eq_ok.2 rfl
        have hwrite : JsonWriter.write [] = .error .confirmFailed := rfl
        refine ⟨.confirmFailed, ?_⟩
        simp [detail.readDocument, hload, hselected, hformat, renderDocument, hsection, hdata,
          hwrite, confirm, bind, Except.bind]
      obtain ⟨e, hnothing⟩ := hnothing
      rw [hrefused e (hread.trans hnothing), if_pos hempty]
      exact ⟨rfl, hstore, fun _ _ hnone _ => hnone⟩
    · have hdata := readDocument_payload (c := c) hempty hload hformat hselected hregisters.data
      rw [VersionCall.onStore, hread, hdata, if_neg hempty]
      exact ⟨rfl, hstore, fun _ _ hnone _ => hnone⟩
  · rw [hselect, hrefused e (hread.trans (readDocument_unselected hload hselected))]
    exact ⟨rfl, hstore, fun _ _ hnone _ => hnone⟩

end Calls

/-! ## The document of a version that is overwritten -/

theorem Indexable.of_lookup {document document' : Object} (h : Indexable document)
    (hlookup : ∀ k ∈ ["version", "configurations", "entities", "aliases", "runs"],
      lookup k document' = lookup k document) : Indexable document' := by
  obtain ⟨sections⟩ := h
  exact ⟨{ sections with
    version_lookup := by rw [hlookup _ (by simp), sections.version_lookup]
    configurations_lookup := by rw [hlookup _ (by simp), sections.configurations_lookup]
    entities_lookup := by rw [hlookup _ (by simp), sections.entities_lookup]
    aliases_lookup := by rw [hlookup _ (by simp), sections.aliases_lookup]
    runs_lookup := by rw [hlookup _ (by simp), sections.runs_lookup] }⟩

theorem EntriesNamed.addNamed {entries : List Value} (h : EntriesNamed entries)
    (env : Environment) {name : String} (hname : name ≠ "") :
    EntriesNamed (addNamed (stamped env name) entries) := by
  intro entry hentry
  rcases mem_addNamed hentry with hold | rfl
  · exact h entry hold
  · exact ⟨name, rfl, hname⟩

/-- The options of a write are indexed like any others. -/
theorem OptionEffects.indexable
    {clock : Clock} {options : ManageDocumentOperation} {record record' : Object}
    (heffects : OptionEffects clock options record record') (hindexable : Indexable record)
    (hrun : options.run = notprovided) : Indexable record' := by
  obtain ⟨sections⟩ := hindexable
  have hruns := heffects.runs _ sections.runs_lookup
  rw [if_pos hrun] at hruns
  exact ⟨{
    version := options.version.text
    configurations := _
    entities := _
    aliases := sections.aliases
    active := sections.active
    runs := sections.runs
    version_lookup := heffects.version
    configurations_lookup := heffects.configurations _ sections.configurations_lookup
    entities_lookup := heffects.entities _ sections.entities_lookup
    aliases_lookup := by rw [heffects.others "aliases" (by decide), sections.aliases_lookup]
    active_lookup := sections.active_lookup
    runs_lookup := hruns
    version_ne := options.version.text_ne
    configurations_assigned :=
      sections.configurations_assigned.addNamed (clock 0) _ options.configuration.text_ne
    entities_named := sections.entities_named.addNamed (clock 3) options.entity.text_ne
    active_named := sections.active_named
    runs_named := sections.runs_named }⟩

theorem OptionEffects.mem_documentEntities
    {clock : Clock} {options : ManageDocumentOperation} {record record' : Object}
    (heffects : OptionEffects clock options record record') (hindexable : Indexable record)
    (entity : String) :
    entity ∈ documentEntities record' ↔
      entity ∈ documentEntities record ∨ entity = options.entity.text := by
  obtain ⟨sections⟩ := hindexable
  have hentities := heffects.entities _ sections.entities_lookup
  rw [documentEntities, sectionEntries, hentities, documentEntities, sectionEntries,
    sections.entities_lookup]
  exact mem_namesOf_addNamed (clock 3) _ sections.entities_named entity

theorem withNewData_data (c : Conversions) (clock : Clock) (new document : Object) :
    withNewData c clock (.json (.object new)) document = .ok (withPayload new document) := by
  have hsection : valueAt "document" (dataRecord (clock 0) new) =
      .ok (.object (payloadSection new)) := valueAt_eq_ok.2 (lookup_set_self _ _ _)
  simp only [withNewData, wrapData, createFromData_data, hsection, bind, Except.bind]
  rfl

section Overwrite

variable {name : VersionName} {oid version : String} {document : Object} {entry : Entry}
  (hplaced : Placed name.collection oid document) (hindexable : Indexable document)
  (hregisters : Registers document version entry) {options : ManageDocumentOperation}
  (hasks : Asks name options) (hoperation : options.operation = "overwritedocument")
  (clock : Clock) (new : Object)

include hplaced in
theorem placed_withPayload : Placed name.collection oid (withPayload new document) where
  accepted := hplaced.accepted.set_section
    (s := ⟨"document", valueDefault (.object []), false, ovlDocument⟩) (by simp [recordSections])
    fun env => ovlDocument_payloadSection env new
  id := by rw [lookup_withPayload (by decide), hplaced.id]
  collection := by rw [lookup_withPayload (by decide), hplaced.collection]
  oid_valid := hplaced.oid_valid

include hregisters in
theorem registers_withPayload :
    Registers (withPayload new document) version { entry with data := new } where
  version := by rw [lookup_withPayload (by decide), hregisters.version]
  entities entity := by
    rw [← hregisters.entities, documentEntities, documentEntities, sectionEntries, sectionEntries,
      lookup_withPayload (by decide)]
  frozen := by
    rw [isReadonlyOrDeleted_congr (lookup_withPayload (by decide)), hregisters.frozen]
  data := lookup_set_self _ _ _
  whole := by rw [lookup_withPayload (by decide), hregisters.whole]

include hindexable in
theorem indexable_withPayload : Indexable (withPayload new document) := by
  refine hindexable.of_lookup fun k hk => lookup_withPayload ?_
  rintro rfl
  simp at hk

include hregisters hoperation in
/-- A frozen document gets the data. -/
theorem settled_frozen (hfrozen : entry.frozen = true) :
    settled clock options (withPayload new document) = withPayload new document := by
  have hfrozen' : Frozen (withPayload new document) := by
    have h := (registers_withPayload hregisters new).frozen
    rwa [show ({ entry with data := new } : Entry).frozen = true from hfrozen] at h
  rw [settled_of_frozen hfrozen', if_neg (by rw [hoperation]; decide)]

include hplaced hindexable hregisters hasks in
/-- Another document gets the data, the version and the entity. -/
theorem settled_writable (hwritable : entry.frozen = false) :
    Placed name.collection oid (settled clock options (withPayload new document)) ∧
      Indexable (settled clock options (withPayload new document)) ∧
      Registers (settled clock options (withPayload new document)) name.version
        ⟨insert name.entityText entry.entities, false, new⟩ := by
  have hplaced' := placed_withPayload hplaced new
  have hindexable' := indexable_withPayload hindexable new
  have hregisters' := registers_withPayload hregisters new
  have hwritable' : Writable (withPayload new document) := by
    have h := hregisters'.frozen
    rwa [show ({ entry with data := new } : Entry).frozen = false from hwritable] at h
  have heffects := optionEdits_effects (clock.drop 4) options hplaced'.accepted hwritable'
  rw [settled, if_pos hwritable']
  refine ⟨⟨heffects.kept.accepted, ?_, ?_, hplaced.oid_valid⟩,
    heffects.indexable hindexable' hasks.run, ?_, fun entity => ?_,
    heffects.kept.writable hwritable', ?_, ?_⟩
  · rw [heffects.others "_id" (by decide), hplaced'.id]
  · rw [heffects.collection, hasks.collection]
  · rw [heffects.version, hasks.version]
  · rw [heffects.mem_documentEntities hindexable', hregisters'.entities, hasks.entity,
      Set.mem_insert_iff, or_comm]
  · rw [heffects.others "document" (by decide), hregisters'.data]
  · rw [heffects.others "payload" (by decide), hregisters'.whole]

end Overwrite

/-! ## Filing under the same id -/

theorem writeRequest_filed
    {collection oid : String} {filed : Object} (hplaced : Placed collection oid filed)
    (env : Environment) (options : ManageDocumentOperation) :
    ∃ request, writeRequest env
        (filedPayload options filed (.object [("$oid", .string oid)])) = .ok request ∧
      request.collection = collection ∧ request.oid = oid ∧ request.isNew = false ∧
      request.document = filed :=
  writeRequest_own hplaced (findChildDocument_eq_ok.2 ⟨_, filed, rfl, rfl, rfl⟩)
    (writeFilter_of_lookup rfl) env

/-- A record that is written under its own id is filed. -/
theorem writeDocument_detail_own
    {c : Conversions} {clock : Clock} {options : ManageDocumentOperation} {conf text : Text}
    {collection oid : String} {filed : Object} (hplaced : Placed collection oid filed)
    (hwritten : writePayload c clock options conf =
      .ok (filedPayload options filed (.object [("$oid", .string oid)]), text)) (store : Store) :
    detail.writeDocument c clock options conf store =
      .ok text (writeStep store
        (clock 9, filedPayload options filed (.object [("$oid", .string oid)]))) := by
  obtain ⟨request, hrequest, -, -, hnew, -⟩ := writeRequest_filed hplaced (clock 9) options
  exact writeDocument_detail_ok hwritten hrequest (by simp [checkInsert, hnew])

/-- It is filed under no other id. -/
theorem documentAt_refiled_none
    {store : Store} {collection oid : String} {old filed : Object}
    (hold : documentAt store collection oid = some old) (hplaced : Placed collection oid filed)
    (env : Environment) (options : ManageDocumentOperation) {name id : String}
    (hnone : documentAt store name id = none) :
    documentAt (writeStep store
      (env, filedPayload options filed (.object [("$oid", .string oid)]))) name id = none := by
  obtain ⟨request, hrequest, rfl, rfl, -⟩ := writeRequest_filed hplaced env options
  refine documentAt_writeStep_none hrequest hnone fun hsame => ?_
  rw [Prod.mk.injEq] at hsame
  rw [hsame.1, hsame.2, hold] at hnone
  cases hnone

/-- The record takes the place of the one that is filed there. -/
theorem Represents.refile
    {store : Store} {r : Registry} (hstore : Represents store r) {collection oid : String}
    {old filed : Object} {version version' : String} {entry entry' : Entry}
    (hold : documentAt store collection oid = some old) (hregisters : Registers old version entry)
    (hplaced : Placed collection oid filed) (hindexable : Indexable filed)
    (hregisters' : Registers filed version' entry')
    (hentities : ∀ entity ∈ entry.entities, entity ∈ entry'.entities)
    (horderly : version = version' ∨ r collection version' = none) (env : Environment)
    (options : ManageDocumentOperation) :
    Represents (ArtdaqDatabase.writeStep store
        (env, filedPayload options filed (.object [("$oid", .string oid)])))
      (r.move collection (some version) version' entry') := by
  obtain ⟨request, hrequest, rfl, rfl, hnew, rfl⟩ := writeRequest_filed hplaced env options
  refine hstore.writeStep hrequest (by simp [checkInsert, hnew]) hplaced hindexable hregisters'
    (fun document hdocument entity hentity => ?_) (fun v => ?_) fun oid document hdocument hv => ?_
  · rw [hold, Option.some.injEq] at hdocument
    rw [← hdocument, hregisters.entities] at hentity
    exact (hregisters'.entities entity).2 (hentities entity hentity)
  · rw [hold]
    simp [hregisters.version]
  · rcases horderly with rfl | hfree
    · exact hstore.unique _ _ _ _ _ _ hdocument hold hv hregisters.version
    · exact absurd hfree ((hstore.hasVersion_iff _ _).1 ⟨oid, document, hdocument, hv⟩)

/-! ## Overwriting -/

section Calls

variable {store : Store} {r : Registry} (hstore : Represents store r) (c : Conversions)
include hstore

/-- The data of the version that is taken are replaced. -/
theorem Represents.answersAs_overwrite
    {clock : Clock} {name : VersionName} (new : Object)
    (horderly : r.Orderly (.overwrite clock name new)) :
    AnswersAs c store r (.overwrite clock name new) := by
  rw [AnswersAs, VersionCall.onStore, Registry.answer]
  by_cases hnamed : name.Named
  swap
  · obtain ⟨e, he⟩ := versionOptions_of_not_named hnamed .db
    have hrun : ConfigurationInterface.overwriteVersion c clock name.collection name.version
        name.entity (.ok (.json (.object new))) store = .error e store :=
      bind_error (lift_run_error he store)
    rw [attempt_error hrun, Registry.select, if_neg hnamed]
    exact ⟨rfl, hstore, fun _ _ hnone _ => hnone⟩
  obtain ⟨found, hfound, hasks, hload, hformat⟩ := versionOptions_of_named hnamed .db
  rcases hstore.select_cases hasks hnamed with
    ⟨version, entry, oid, document, hselect, hdocument, hregisters, hselected⟩ |
      ⟨-, hselect, e, hselected⟩
  swap
  · have hrun : ConfigurationInterface.overwriteVersion c clock name.collection name.version
        name.entity (.ok (.json (.object new))) store = .error e store := by
      rw [ConfigurationInterface.overwriteVersion, bind_run (lift_run hfound store)]
      exact bind_error (fetch_error (readDocument_unselected hload hselected))
    rw [attempt_error hrun, hselect]
    exact ⟨rfl, hstore, fun _ _ hnone _ => hnone⟩
  obtain ⟨options, hoptions⟩ :
      ∃ options, options = { found with operation := "overwritedocument" } := ⟨_, rfl⟩
  have hwriteAsks : Asks name options := by
    rw [hoptions]
    exact ⟨hasks.collection, hasks.version, hasks.entity, hasks.queryFilter, hasks.configuration,
      hasks.run⟩
  have hwriteFormat : options.format = .db := by rw [hoptions, ← hformat]
  have hoperation : options.operation = "overwritedocument" := by rw [hoptions]
  have hread := readDocument_db (c := c) hload hformat hselected
  have hrun : ConfigurationInterface.overwriteVersion c clock name.collection name.version
      name.entity (.ok (.json (.object new))) store =
        detail.writeDocument c (clock.drop 2) options
          (.json (.object (withPayload new document))) store := by
    rw [overwriteVersion_run hfound hread,
      bind_run (lift_run (withNewData_data c clock new document) store), hoptions]
  have hplaced := hstore.tidy.placed _ _ _ hdocument
  have hindexable := hstore.tidy.indexable _ _ _ hdocument
  have hplaced' := placed_withPayload hplaced new
  have hregisters' := registers_withPayload hregisters new
  have hwrites {filed : Object}
      (hsettled : settled (clock.drop 2) options (withPayload new document) = filed)
      (hfiled : Placed name.collection oid filed) :=
    writeDocument_detail_own hfiled (by
      have hid : lookup "_id" (settled (clock.drop 2) options (withPayload new document)) =
          some (.object [("$oid", .string oid)]) := by rw [hsettled, hfiled.id]
      rw [writePayload_settled (c := c) hwriteFormat (Or.inr hoperation) hplaced'.accepted
        hregisters'.whole hregisters'.frozen hid, hsettled]) store
  rw [hselect]
  dsimp only
  rw [Registry.overwritten]
  cases hfrozen : entry.frozen with
  | true =>
      have hsettled := settled_frozen hregisters hoperation (clock.drop 2) new hfrozen
      have hrefiled := hstore.refile hdocument hregisters hplaced'
        (indexable_withPayload hindexable new) hregisters' (fun _ h => h) (Or.inl rfl)
        (clock.drop 2 9) options
      rw [attempt_ok (hrun.trans (hwrites hsettled hplaced')), if_pos rfl]
      rw [Registry.move_same] at hrefiled
      rw [hfrozen] at hrefiled
      exact ⟨rfl, hrefiled, fun _ _ hnone _ =>
        documentAt_refiled_none hdocument hplaced' _ _ hnone⟩
  | false =>
      obtain ⟨hfiled, hindexable', hregistersFiled⟩ :=
        settled_writable hplaced hindexable hregisters hwriteAsks (clock.drop 2) new hfrozen
      have hversions : version = name.version ∨ r name.collection name.version = none := by
        rcases horderly version entry hselect with h | h | h
        · rw [hfrozen] at h
          cases h
        · exact Or.inl h
        · exact Or.inr h
      have hrefiled := hstore.refile hdocument hregisters hfiled hindexable' hregistersFiled
        (fun entity h => Set.mem_insert_of_mem _ h) hversions (clock.drop 2 9) options
      rw [attempt_ok (hrun.trans (hwrites rfl hfiled)), if_neg (by simp)]
      exact ⟨rfl, hrefiled, fun _ _ hnone _ => documentAt_refiled_none hdocument hfiled _ _ hnone⟩

end Calls

/-! ## Marking -/

section Mark

variable {name : VersionName} {oid version : String} {document : Object} {entry : Entry}
  (hplaced : Placed name.collection oid document) (hindexable : Indexable document)
  (hregisters : Registers document version entry) (env : Environment)

theorem lookup_markReadonly {k : String} (hk : k ≠ "bookkeeping") :
    lookup k (builderEdit env .markReadonly document) = lookup k document :=
  lookup_builderEdit_of_untouched (by simp [touchedKeys, hk]) document

include hplaced hregisters in
theorem frozen_markedReadonly : Frozen (builderEdit env .markReadonly document) := by
  cases hflag : entry.frozen with
  | true =>
      have hfrozen : Frozen document := by
        rw [Frozen, hregisters.frozen, hflag]
      exact frozen_managedEdit hplaced.accepted hfrozen .markReadonly env
  | false =>
      have hwritable : Writable document := by
        rw [Writable, hregisters.frozen, hflag]
      exact frozen_markReadonly hplaced.accepted hwritable env

include hplaced in
theorem placed_markedReadonly :
    Placed name.collection oid (builderEdit env .markReadonly document) where
  accepted := accepted_managedEdit hplaced.accepted .markReadonly env
  id := by rw [lookup_markReadonly env (by decide), hplaced.id]
  collection := by rw [lookup_markReadonly env (by decide), hplaced.collection]
  oid_valid := hplaced.oid_valid

include hindexable in
theorem indexable_markedReadonly : Indexable (builderEdit env .markReadonly document) := by
  refine hindexable.of_lookup fun k hk => lookup_markReadonly env ?_
  rintro rfl
  simp at hk

include hplaced hregisters in
theorem registers_markedReadonly :
    Registers (builderEdit env .markReadonly document) version { entry with frozen := true } where
  version := by rw [lookup_markReadonly env (by decide), hregisters.version]
  entities entity := by
    rw [← hregisters.entities, documentEntities, documentEntities, sectionEntries, sectionEntries,
      lookup_markReadonly env (by decide)]
  frozen := frozen_markedReadonly hplaced hregisters env
  data := by rw [lookup_markReadonly env (by decide), hregisters.data]
  whole := by rw [lookup_markReadonly env (by decide), hregisters.whole]

end Mark

/-- A search by the version alone finds as much after an entry is frozen. -/
theorem finds_put_of_version
    {r : Registry} {name : VersionName} (hentity : name.entity = "") {version : String}
    {entry : Entry} (entry' : Entry)
    (hfound : Finds (r name.collection).entries name.criteria (version, entry)) :
    Finds (r.put name.collection version entry' name.collection).entries name.criteria
      (version, entry') := by
  have hentry : r name.collection version = some entry := hfound.1
  have hcriteria : name.criteria = askedFor name.version fun p => p.1 = name.version := by
    have htext : name.entityText = "notprovided" := if_pos hentity
    rw [VersionName.criteria, htext]
    simp [askedFor]
  rw [hcriteria] at hfound ⊢
  refine (finds_iff_of_related (Q := fun p q => p.1 = q.1) ?_ ?_ ?_ hfound.1 ?_ rfl).1 hfound
  · rintro ⟨v, e⟩ he
    by_cases hv : v = version
    · exact ⟨(version, entry'), by simp [Versions.entries, Registry.put_apply], hv⟩
    · have hkept : r name.collection v = some e := he
      exact ⟨(v, e), by simp [Versions.entries, Registry.put_apply, hv, hkept], rfl⟩
  · rintro ⟨v, e⟩ he
    by_cases hv : v = version
    · exact ⟨(version, entry), hentry, hv.symm⟩
    · have hkept : r.put name.collection version entry' name.collection v = some e := he
      rw [Registry.put_apply, if_neg fun h => hv h.2] at hkept
      exact ⟨(v, e), hkept, rfl⟩
  · exact forall₂_askedFor fun p q hrel => by rw [show p.1 = q.1 from hrel]
  · simp [Versions.entries, Registry.put_apply]

theorem Asks.stepOptions
    {name : VersionName} {options : ManageDocumentOperation} (hasks : Asks name options)
    (operation : String) (format : DataFormat) :
    Asks { name with entity := "" } (detail.stepOptions options operation format) where
  collection := hasks.collection
  version := hasks.version
  entity := rfl
  queryFilter := rfl
  configuration := hasks.configuration
  run := hasks.run

theorem rewriteDocument_run
    {c : Conversions} {clock : Clock}
    {readOptions writeOptions resultOptions : ManageDocumentOperation} {edit : BuilderOperation}
    {record : Object} {store store' : Store} {text result : Text}
    (hread : detail.readDocument c readOptions store = .ok (.json (.object record)))
    (haccepted : Accepted record)
    (hwrites : detail.writeDocument c (clock.drop 2) writeOptions
      (.json (.object (builderEdit (clock 1) edit record))) store = .ok text store')
    (hresult : detail.readDocument c resultOptions store' = .ok result) :
    detail.rewriteDocument c clock readOptions writeOptions resultOptions edit store =
      .ok result store' := by
  have hdata : (Text.json (.object record)).document = .ok record := rfl
  have hrecord : ovlDatabaseRecord (clock 0) record = .ok record := haccepted (clock 0)
  rw [detail.rewriteDocument, bind_run (fetch_ok hread), bind_run (lift_run hdata store),
    bind_run (lift_run hrecord store), bind_run hwrites, fetch_ok hresult]

section Calls

variable {store : Store} {r : Registry} (hstore : Represents store r) (c : Conversions)
include hstore

/-- The version that is taken without regard to the entity is frozen. -/
theorem Represents.answersAs_markReadonly (clock : Clock) (name : VersionName) :
    AnswersAs c store r (.markReadonly clock name) := by
  rw [AnswersAs, VersionCall.onStore, Registry.answer]
  by_cases hnamed : name.Named
  swap
  · obtain ⟨e, he⟩ := versionOptions_of_not_named hnamed .db
    have hrun : ConfigurationInterface.markVersionReadonly c clock name.collection name.version
        name.entity store = .error e store :=
      bind_error (lift_run_error he store)
    have hselect : r.select { name with entity := "" } = none := if_neg hnamed
    rw [attempt_error hrun, hselect]
    exact ⟨rfl, hstore, fun _ _ hnone _ => hnone⟩
  obtain ⟨options, hoptions, hasks, -, hformat⟩ := versionOptions_of_named hnamed .db
  have hrun : ConfigurationInterface.markVersionReadonly c clock name.collection name.version
      name.entity store =
        detail.rewriteDocument c clock (detail.stepOptions options "load" .db)
          (detail.stepOptions options "overwritedocument" .db)
          (detail.stepOptions options "load" .db) .markReadonly store := by
    rw [ConfigurationInterface.markVersionReadonly, bind_run (lift_run hoptions store),
      detail.markDocumentReadonly, detail.rewriteWithoutEntity]
    have hconfirm : confirm ("markreadonly" = "markreadonly") = .ok () := by simp [confirm]
    simp only [hformat]
    exact bind_run (lift_run hconfirm store)
  have hasksRead := hasks.stepOptions "load" .db
  have hnamedRead : ({ name with entity := "" } : VersionName).Named := hnamed
  rcases hstore.select_cases hasksRead hnamedRead with
    ⟨version, entry, oid, document, hselect, hdocument, hregisters, hselected⟩ |
      ⟨-, hselect, e, hselected⟩
  swap
  · have herror : detail.rewriteDocument c clock (detail.stepOptions options "load" .db)
        (detail.stepOptions options "overwritedocument" .db)
        (detail.stepOptions options "load" .db) .markReadonly store = .error e store := by
      rw [detail.rewriteDocument]
      exact bind_error (fetch_error (readDocument_unselected rfl hselected))
    rw [attempt_error (hrun.trans herror), hselect]
    exact ⟨rfl, hstore, fun _ _ hnone _ => hnone⟩
  have hread := readDocument_db (c := c) rfl rfl hselected
  have hplaced := hstore.tidy.placed _ _ _ hdocument
  have hplaced' := placed_markedReadonly hplaced (clock 1)
  have hregisters' := registers_markedReadonly hplaced hregisters (clock 1)
  have hfrozen := frozen_markedReadonly hplaced hregisters (clock 1)
  have hsettled : settled (clock.drop 2) (detail.stepOptions options "overwritedocument" .db)
      (builderEdit (clock 1) .markReadonly document) =
        builderEdit (clock 1) .markReadonly document := by
    rw [settled_of_frozen hfrozen, if_neg (by simp [detail.stepOptions])]
  have hwrites := writeDocument_detail_own hplaced' (by
    have hid : lookup "_id" (settled (clock.drop 2)
        (detail.stepOptions options "overwritedocument" .db)
        (builderEdit (clock 1) .markReadonly document)) =
          some (.object [("$oid", .string oid)]) := by rw [hsettled, hplaced'.id]
    rw [writePayload_settled (c := c) rfl (Or.inr rfl) hplaced'.accepted hregisters'.whole
      hregisters'.frozen hid, hsettled]) store
  have hrefiled := hstore.refile hdocument hregisters hplaced'
    (indexable_markedReadonly (hstore.tidy.indexable _ _ _ hdocument) (clock 1)) hregisters'
    (fun _ h => h) (Or.inl rfl) (clock.drop 2 9)
    (detail.stepOptions options "overwritedocument" .db)
  rw [Registry.move_same] at hrefiled
  -- The version is still found, so the last read has a document.
  have hfound : Finds (r name.collection).entries
      ({ name with entity := "" } : VersionName).criteria (version, entry) := by
    rw [Registry.select, if_pos hnamedRead] at hselect
    exact (greatest_of_select hselect).1
  rcases hrefiled.select_cases hasksRead hnamedRead with
    ⟨-, -, -, document', -, -, -, hselected'⟩ | ⟨hnone, -, -⟩
  · have hresult := readDocument_db (c := c) rfl rfl hselected'
    rw [attempt_ok (hrun.trans (rewriteDocument_run hread hplaced.accepted hwrites hresult)),
      hselect]
    exact ⟨rfl, hrefiled, fun _ _ hnone _ =>
      documentAt_refiled_none hdocument hplaced' _ _ hnone⟩
  · exact absurd (finds_put_of_version rfl { entry with frozen := true } hfound) (hnone _)

end Calls

/-! ## Runs of calls -/

section Runs

variable (c : Conversions)

/-- A call is answered as by the registry. -/
theorem Represents.answersAs
    {store : Store} {r : Registry} (hstore : Represents store r) {call : VersionCall}
    (horderly : r.Orderly call)
    (hunused : ∀ p ∈ call.generated, documentAt store p.1 p.2 = none) :
    AnswersAs c store r call := by
  cases call with
  | store clock name data => exact hstore.answersAs_store c data (hunused _ List.mem_cons_self)
  | overwrite clock name data => exact hstore.answersAs_overwrite c data horderly
  | markReadonly clock name => exact hstore.answersAs_markReadonly c clock name
  | load name => exact hstore.answersAs_load c name

/-- The store holds the registry, and the ids that the calls will generate are unused. -/
structure Awaits (calls : List VersionCall) (store : Store) (r : Registry) : Prop where
  represents : Represents store r
  distinct : (calls.flatMap VersionCall.generated).Nodup
  unused : ∀ p ∈ calls.flatMap VersionCall.generated, documentAt store p.1 p.2 = none

theorem Awaits.step
    {call : VersionCall} {calls : List VersionCall} {store : Store} {r : Registry}
    (h : Awaits (call :: calls) store r) (horderly : r.Orderly call) :
    (call.onStore c store).1 = (r.answer call).1 ∧
      Awaits calls (call.onStore c store).2 (r.answer call).2 := by
  obtain ⟨hstore, hdistinct, hunused⟩ := h
  rw [List.flatMap_cons] at hdistinct hunused
  obtain ⟨-, hrest, hdisjoint⟩ := List.nodup_append.1 hdistinct
  obtain ⟨hreply, hrepresents, hnone⟩ := hstore.answersAs c horderly fun p hp =>
    hunused p (List.mem_append_left _ hp)
  refine ⟨hreply, hrepresents, hrest, fun p hp => ?_⟩
  refine hnone p.1 p.2 (hunused p (List.mem_append_right _ hp)) fun hgenerated => ?_
  exact hdisjoint p hgenerated p hp rfl

end Runs

def exampleName : VersionName := ⟨"run", "v1", "crate1"⟩

def versionedCalls : List VersionCall :=
  [.store exampleClock exampleName [("rate", .integer 5)],
    .overwrite exampleClock exampleName [("rate", .integer 7)],
    .markReadonly exampleClock exampleName, .load exampleName]

end ArtdaqDatabase
