import ArtdaqDatabase.FileSystemProvider

/-!
# Duplicates

The version table of the index follows the stored documents in every run of
writes, whatever else goes wrong with the index.  The entities of a document are
an array, which the lookup of the duplicate check does not accept, so the search
is for the version alone.
-/

namespace ArtdaqDatabase

open OrderedTable SortedUnique InvertedIndex InPlaceUpdate GuardedRun

/-! ## The version table -/

/-- The ids and the version table are those of the stored documents. -/
structure VersionsListed (c : Collection) : Prop where
  versioned : ∀ oid document, c.stored oid = some document → Versioned document
  ids : ∀ oid, oid ∈ c.index.ouid ↔ ∃ document, c.stored oid = some document
  version : entries c.index.version =
    carriedBy (fun document => {v | lookup "version" document = some (.string v)}) c.stored

theorem versionsListed_empty : VersionsListed Collection.empty := by
  refine ⟨by simp, ?_, ?_⟩
  · simp [Collection.empty, SearchIndex.empty, Collection.stored]
  · simp only [Collection.empty, SearchIndex.empty, entries_nil, carriedBy]
    ext p
    simp [Collection.stored]

/-- The index before the new version is listed. -/
theorem versionView_indexWithout
    {c : Collection} {request : WriteRequest} (hc : VersionsListed c)
    (hnew : request.isNew = true → c.stored request.oid = none) :
    (∀ oid, oid ≠ request.oid → (oid ∈ (c.indexWithout request).ouid ↔ oid ∈ c.index.ouid)) ∧
      entries (c.indexWithout request).version = entries c.index.version \
        stale (fun document => {v | lookup "version" document = some (.string v)})
          (c.stored request.oid) request.oid := by
  cases hold : c.stored request.oid with
  | none =>
      have hbase : c.indexWithout request = c.index := by
        simp [Collection.indexWithout, hold]
      rw [hbase]
      exact ⟨fun _ _ => Iff.rfl, by rw [stale_none, Set.sdiff_empty]⟩
  | some old =>
      have hoverwrite : request.isNew = false := by
        cases hisNew : request.isNew with
        | false => rfl
        | true => simp [hnew hisNew] at hold
      obtain ⟨version, hversion, hne⟩ := hc.versioned _ _ hold
      have hview := versionView_removeDocument hversion hne request.oid_ne c.index
      rw [versionView, Prod.mk.injEq] at hview
      have hbase : c.indexWithout request =
          after (removeDocument old request.oid) c.index := by
        rw [Collection.indexWithout, hoverwrite, hold]
        rfl
      rw [hbase, hview.1, hview.2, entries_dropPosting]
      refine ⟨fun oid hoid => by simp [hoid], ?_⟩
      congr 1
      ext ⟨v, oid⟩
      simp [stale, hversion, and_comm, eq_comm]

theorem versionsListed_replaced
    {c : Collection} {request : WriteRequest} (hc : VersionsListed c)
    (hnew : request.isNew = true → c.stored request.oid = none)
    (hversioned : Versioned request.document) :
    VersionsListed (c.replaced request) := by
  obtain ⟨version, hversion, hne⟩ := hversioned
  obtain ⟨hids, hversions⟩ := versionView_indexWithout hc hnew
  have hview := versionView_addDocument hversion hne request.oid_ne (c.indexWithout request)
  rw [versionView, Prod.mk.injEq] at hview
  refine ⟨fun oid document hdocument => ?_, fun oid => ?_, ?_⟩
  · rw [stored_replaced] at hdocument
    by_cases hoid : oid = request.oid
    · subst hoid
      rw [Function.update_self, Option.some.injEq] at hdocument
      rw [← hdocument]
      exact ⟨version, hversion, hne⟩
    · rw [Function.update_of_ne hoid] at hdocument
      exact hc.versioned oid document hdocument
  · rw [stored_replaced, Collection.replaced, hview.1, mem_sortUnique, List.mem_append,
      List.mem_singleton]
    by_cases hoid : oid = request.oid
    · simp [hoid]
    · rw [hids oid hoid, hc.ids, Function.update_of_ne hoid]
      simp [hoid]
  · rw [stored_replaced, carriedBy_update, Collection.replaced, hview.2,
      entries_insertPosting, hversions, ← hc.version]
    ext ⟨v, oid⟩
    simp [hversion, or_comm, eq_comm]

/-- In every state of every run of writes the version table is right. -/
theorem versionsListed_writes (calls : List (Environment × Value)) (name : String) :
    VersionsListed (collectionAt name (writes [] calls)) :=
  have hmeets : Meets writeStep (fun _ _ => True) [] calls :=
    meets_of_forall (fun _ _ _ => trivial) []
  run_invariant (fun store => VersionsListed (collectionAt name store))
    (fun _ _ hstore _ =>
      collectionAt_writeStep
        (fun _ hrequest _ hcheck =>
          versionsListed_replaced hstore (checkInsert_absent hcheck)
            (writeRequest_versioned hrequest))
        hstore)
    versionsListed_empty hmeets

/-! ## The duplicate check -/

/-- The overlay accepts entities only as an array, and the check cannot read them. -/
theorem duplicateEntity_of_overlay
    {env : Environment} {userDocument record : Object}
    (hrecord : ovlDatabaseRecord env userDocument = .ok record) :
    duplicateEntity userDocument = "" := by
  obtain ⟨w, ⟨⟨v, hinput, hnormalize⟩, -, -⟩⟩ :=
    applySections_result recordSections_nodup hrecord
      (s := ⟨"entities", valueDefault (.array []), false, ovlFixedList ovlEntity⟩)
      (by simp [recordSections])
  simp only [ovlFixedList, bind_eq_ok, getArray_eq_ok] at hnormalize
  obtain ⟨entries, rfl, -⟩ := hnormalize
  have hfails : ∀ d, findChildDocument "entities" (.object userDocument) ≠ .ok d := by
    intro d hd
    obtain ⟨o, p, ho, hp, -⟩ := findChildDocument_eq_ok.1 hd
    rw [Value.object.injEq] at ho
    subst ho
    simp [Section.input, hp] at hinput
  unfold duplicateEntity
  cases hfound : findChildDocument "entities" (.object userDocument) with
  | ok d => exact absurd hfound (hfails d)
  | error e => rfl

theorem findDocumentIDs_version
    {version : String} (hversion : version ≠ "") (index : SearchIndex) :
    ∃ ids, findDocumentIDs index [("version", .string version)] = .ok ids ∧
      ∀ oid, oid ∈ ids ↔ (version, oid) ∈ entries index.version := by
  have hsearch : SupportedSearch [("version", .string version)] := by
    intro criterion hcriterion
    rw [List.mem_singleton] at hcriterion
    subst hcriterion
    exact SupportedCriterion.version hversion
  refine ⟨_, findDocumentIDs_supported hsearch (by simp) index, fun oid => ?_⟩
  rw [mem_combineMatches]
  simp [stringCriteria, isString, criterionIds, runMatchingFunction, matchVersion,
    matchTable_eq_ok hversion, Except.toOption]

/-- Some stored document has the version. -/
def HasVersion (c : Collection) (version : String) : Prop :=
  ∃ oid document, c.stored oid = some document ∧
    lookup "version" document = some (.string version)

/-- Some stored document has the version and carries the entity. -/
def HasVersionAndEntity (c : Collection) (version entity : String) : Prop :=
  ∃ oid document, c.stored oid = some document ∧
    lookup "version" document = some (.string version) ∧ entity ∈ documentEntities document

section Insert

variable {c : Collection} {request : WriteRequest} {env : Environment} {arg : Value}
  {version : String}

/-- The duplicate check lets a new document pass unless its version is stored. -/
theorem checkDuplicate_iff
    (hc : VersionsListed c) (hrequest : writeRequest env arg = .ok request)
    (hversion : lookup "version" request.userDocument = some (.string version))
    (hne : version ≠ "") :
    checkDuplicate request c = .ok () ↔ ¬ HasVersion c version := by
  obtain ⟨-, -, -, record, hrecord, -⟩ := writeRequest_eq_ok hrequest
  obtain ⟨ids, hids, hmem⟩ := findDocumentIDs_version hne c.index
  have htext : childText "version" (.object request.userDocument) = .ok version :=
    childText_of_lookup (by decide) hversion
  have hfilter : duplicateFilter request.userDocument = .ok [("version", .string version)] := by
    simp [duplicateFilter, htext, duplicateEntity_of_overlay hrecord, bind, Except.bind]
  have hfound : duplicateFilter request.userDocument >>= findDocumentIDs c.index = .ok ids := by
    rw [hfilter]
    exact hids
  have hlisted : (∃ oid, oid ∈ ids) ↔ HasVersion c version := by
    simp only [hmem, hc.version, carriedBy, Set.mem_ofPred_eq, HasVersion]
  rw [checkDuplicate, hfound, ← hlisted]
  cases ids with
  | nil => simp
  | cons oid ids => simp

theorem checkInsert_iff
    (hc : VersionsListed c) (hrequest : writeRequest env arg = .ok request)
    (hversion : lookup "version" request.userDocument = some (.string version))
    (hne : version ≠ "") (hfresh : c.stored request.oid = none) :
    checkInsert request c = .ok () ↔ (request.isNew = true → ¬ HasVersion c version) := by
  rw [checkInsert, hfresh, ← checkDuplicate_iff hc hrequest hversion hne]
  cases request.isNew <;> simp

end Insert

/-- The name of the first entity of a document. -/
def firstEntity (document : Object) : Option String :=
  (sectionEntries "entities" document).head?.bind fun entity => (nameOf entity).toOption

/-- Some stored document has the version of the new one and carries its first entity. -/
def HasDuplicate (c : Collection) (request : WriteRequest) : Prop :=
  ∃ version entity, lookup "version" request.userDocument = some (.string version) ∧
    firstEntity request.userDocument = some entity ∧ HasVersionAndEntity c version entity

/-- A write of a new document is refused exactly for a duplicate; a refused write
changes nothing, and an accepted one adds its document and changes no other. -/
structure InsertsUniquely
    (env : Environment) (arg : Value) (request : WriteRequest) (store : Store) : Prop where
  refused_iff : (∃ e store', writeDocument env arg store = .error e store') ↔
    HasDuplicate (collectionAt request.collection store) request
  refused_frame : ∀ e store', writeDocument env arg store = .error e store' →
    ∀ name, collectionAt name store' = collectionAt name store
  accepted : ∀ id store', writeDocument env arg store = .ok id store' →
    id = toId request.oid ∧ (collectionAt request.collection store).stored request.oid = none ∧
      ∀ name, (collectionAt name store').stored =
        if name = request.collection then
          Function.update (collectionAt name store).stored request.oid (some request.document)
        else (collectionAt name store).stored

theorem writeDocument_run
    {env : Environment} {arg : Value} {request : WriteRequest} {store : Store}
    (hrequest : writeRequest env arg = .ok request)
    (hcheck : checkInsert request (collectionAt request.collection store) = .ok ()) :
    writeDocument env arg store = .ok (toId request.oid)
      (set request.collection ((collectionAt request.collection store).replaced request)
        store) := by
  have hrun : onCollection request.collection (writeToCollection request) store =
      .ok () (set request.collection
        ((collectionAt request.collection store).replaced request) store) := by
    rw [onCollection, writeToCollection_run hcheck]
  rw [writeDocument, hrequest, bind_run (lift_ok request store), bind_run hrun]
  rfl

theorem writeDocument_refused
    {env : Environment} {arg : Value} {request : WriteRequest} {store : Store} {e : Failure}
    (hrequest : writeRequest env arg = .ok request)
    (hcheck : checkInsert request (collectionAt request.collection store) = .error e) :
    writeDocument env arg store = .error e
      (set request.collection (collectionAt request.collection store) store) := by
  have hrun : onCollection request.collection (writeToCollection request) store =
      .error e (set request.collection (collectionAt request.collection store) store) := by
    rw [onCollection, writeToCollection_refused hcheck]
  rw [writeDocument, hrequest, bind_run (lift_ok request store), bind_error hrun]

/-- After any run of writes, a write of a new document tells duplicates by version
and entity exactly when the version alone tells them, or, where the filter names an
unused id and nothing is checked, when there is no duplicate. -/
theorem writeDocument_insertsUniquely_iff
    {calls : List (Environment × Value)} {env : Environment} {arg : Value}
    {request : WriteRequest} {version entity : String}
    (hrequest : writeRequest env arg = .ok request)
    (hversion : lookup "version" request.userDocument = some (.string version))
    (hne : version ≠ "") (hentity : firstEntity request.userDocument = some entity)
    (hfresh : (collectionAt request.collection (writes [] calls)).stored request.oid = none) :
    InsertsUniquely env arg request (writes [] calls) ↔
      (request.isNew = true →
        HasVersion (collectionAt request.collection (writes [] calls)) version →
        HasVersionAndEntity (collectionAt request.collection (writes [] calls))
          version entity) ∧
      (request.isNew = false →
        ¬ HasVersionAndEntity (collectionAt request.collection (writes [] calls))
          version entity) := by
  have hc := versionsListed_writes calls request.collection
  generalize writes [] calls = store at *
  have hcheck := checkInsert_iff hc hrequest hversion hne hfresh
  have hrefused : (∃ e store', writeDocument env arg store = .error e store') ↔
      request.isNew = true ∧ HasVersion (collectionAt request.collection store) version := by
    cases hresult : checkInsert request (collectionAt request.collection store) with
    | ok u =>
        have := hcheck.1 hresult
        rw [writeDocument_run hrequest hresult]
        simpa using this
    | error e =>
        have hnot : ¬ (request.isNew = true →
            ¬ HasVersion (collectionAt request.collection store) version) := fun h => by
          rw [hcheck.2 h] at hresult
          simp at hresult
        rw [writeDocument_refused hrequest hresult]
        simpa using hnot
  have hduplicate : HasDuplicate (collectionAt request.collection store) request ↔
      HasVersionAndEntity (collectionAt request.collection store) version entity := by
    simp [HasDuplicate, hversion, hentity]
  have hweaken : HasVersionAndEntity (collectionAt request.collection store) version entity →
      HasVersion (collectionAt request.collection store) version := by
    rintro ⟨oid, document, hstored, hdocument, -⟩
    exact ⟨oid, document, hstored, hdocument⟩
  constructor
  · intro hunique
    have hiff := hunique.refused_iff
    rw [hrefused, hduplicate] at hiff
    refine ⟨fun hnew hstored => hiff.1 ⟨hnew, hstored⟩, fun hnew hstored => ?_⟩
    have := (hiff.2 hstored).1
    simp [hnew] at this
  · rintro ⟨hchecked, hunchecked⟩
    refine ⟨?_, fun e store' hresult name => ?_, fun id store' hresult => ?_⟩
    · rw [hrefused, hduplicate]
      refine ⟨fun h => hchecked h.1 h.2, fun h => ⟨?_, hweaken h⟩⟩
      cases hnew : request.isNew with
      | true => rfl
      | false => exact absurd h (hunchecked hnew)
    · cases hcheck' : checkInsert request (collectionAt request.collection store) with
      | ok u => simp [writeDocument_run hrequest hcheck'] at hresult
      | error e' =>
          rw [writeDocument_refused hrequest hcheck', EStateM.Result.error.injEq] at hresult
          rw [← hresult.2, collectionAt_set]
          split
          · rename_i hname
            rw [hname]
          · rfl
    · cases hcheck' : checkInsert request (collectionAt request.collection store) with
      | error e' => simp [writeDocument_refused hrequest hcheck'] at hresult
      | ok u =>
          rw [writeDocument_run hrequest hcheck', EStateM.Result.ok.injEq] at hresult
          refine ⟨hresult.1.symm, hfresh, fun name => ?_⟩
          rw [← hresult.2, collectionAt_set]
          split
          · rename_i hname
            rw [stored_replaced, hname]
          · rfl

/-- The example time with another id to generate. -/
def secondEnvironment : Environment :=
  { exampleEnvironment with
    providerOid := "dddddddddddddddddddddddd"
    oid_valid := by decide }

theorem writeDocument_insertsUniquely_iff_again :
    InsertsUniquely secondEnvironment (examplePayload "v1" "e1" [])
        (exampleRequest secondEnvironment "v1" "e1" [])
        (writes [] [(exampleEnvironment, examplePayload "v1" "e1" [])]) ↔
      ((exampleRequest secondEnvironment "v1" "e1" []).isNew = true →
        HasVersion (collectionAt (exampleRequest secondEnvironment "v1" "e1" []).collection
          (writes [] [(exampleEnvironment, examplePayload "v1" "e1" [])])) "v1" →
        HasVersionAndEntity
          (collectionAt (exampleRequest secondEnvironment "v1" "e1" []).collection
            (writes [] [(exampleEnvironment, examplePayload "v1" "e1" [])])) "v1" "e1") ∧
      ((exampleRequest secondEnvironment "v1" "e1" []).isNew = false →
        ¬ HasVersionAndEntity
          (collectionAt (exampleRequest secondEnvironment "v1" "e1" []).collection
            (writes [] [(exampleEnvironment, examplePayload "v1" "e1" [])])) "v1" "e1") :=
  writeDocument_insertsUniquely_iff
    (by decide +kernel) (by decide +kernel) (by decide) (by decide +kernel)
    (by decide +kernel)

/-- A document with another entity is refused for its version. -/
theorem insert_refused_for_version :
    (∃ e store', writeDocument secondEnvironment (examplePayload "v1" "e2" [])
        (writes [] [(exampleEnvironment, examplePayload "v1" "e1" [])]) = .error e store') ∧
      ¬ InsertsUniquely secondEnvironment (examplePayload "v1" "e2" [])
        (exampleRequest secondEnvironment "v1" "e2" [])
        (writes [] [(exampleEnvironment, examplePayload "v1" "e1" [])]) := by
  have hrequest : writeRequest secondEnvironment (examplePayload "v1" "e2" []) =
      .ok (exampleRequest secondEnvironment "v1" "e2" []) := by
    decide +kernel
  have hcheck : checkInsert (exampleRequest secondEnvironment "v1" "e2" [])
      (collectionAt (exampleRequest secondEnvironment "v1" "e2" []).collection
        (writes [] [(exampleEnvironment, examplePayload "v1" "e1" [])])) =
        .error (msgDuplicate (exampleRequest secondEnvironment "v1" "e2" [])) := by
    decide +kernel
  have hrefused : ∃ e store', writeDocument secondEnvironment (examplePayload "v1" "e2" [])
      (writes [] [(exampleEnvironment, examplePayload "v1" "e1" [])]) = .error e store' :=
    ⟨_, _, writeDocument_refused hrequest hcheck⟩
  have hfirst : firstEntity (exampleRequest secondEnvironment "v1" "e2" []).userDocument =
      some "e2" := by
    decide +kernel
  have hentities : ∀ p ∈ (collectionAt (exampleRequest secondEnvironment "v1" "e2" []).collection
      (writes [] [(exampleEnvironment, examplePayload "v1" "e1" [])])).documents,
      "e2" ∉ documentEntities p.2 := by
    decide +kernel
  refine ⟨hrefused, fun hunique => ?_⟩
  obtain ⟨version, entity, -, hentity, oid, document, hstored, -, hcarried⟩ :=
    hunique.refused_iff.1 hrefused
  rw [hfirst, Option.some.injEq] at hentity
  subst hentity
  exact hentities (oid, document) (mem_of_lookup hstored) hcarried

end ArtdaqDatabase
