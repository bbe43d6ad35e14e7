import ArtdaqDatabase.FreshRecords
import ArtdaqDatabase.TidyStores
import ArtdaqDatabase.VersionRegistry
import ArtdaqDatabase.VersionSelection

/-!
# Stores that hold a registry

A store holds a registry when each of its documents is the entry of one version and
each entry has its document.  A search of the store then takes the document of the
version that the registry takes, also where it widens, and a document that is filed
under its id changes the registry in one version.
-/

namespace ArtdaqDatabase

open OrderedTable InPlaceUpdate InvertedIndex SortedUnique WidenedSearch

/-! ## Documents of entries -/

/-- The document has what is registered under the version. -/
structure Registers (document : Object) (version : String) (entry : Entry) : Prop where
  version : lookup "version" document = some (.string version)
  entities : ∀ entity, entity ∈ documentEntities document ↔ entity ∈ entry.entities
  frozen : isReadonlyOrDeleted document = .ok entry.frozen
  data : lookup "document" document = some (.object (payloadSection entry.data))
  whole : lookup "payload" document = none

theorem Registers.unique {document : Object} {version version' : String} {entry entry' : Entry}
    (h : Registers document version entry) (h' : Registers document version' entry') :
    version' = version ∧ entry' = entry := by
  have hversion := h.version.symm.trans h'.version
  have hfrozen := h.frozen.symm.trans h'.frozen
  have hdata := h.data.symm.trans h'.data
  have hentities : entry'.entities = entry.entities := by
    ext entity
    rw [← h.entities, ← h'.entities]
  rw [Option.some.injEq, Value.string.injEq] at hversion
  rw [Except.ok.injEq] at hfrozen
  simp only [payloadSection, Option.some.injEq, Value.object.injEq, List.cons.injEq,
    Prod.mk.injEq, true_and, and_true] at hdata
  cases entry
  cases entry'
  simp_all

/-- The documents of the store are the entries of the registry. -/
structure Represents (store : Store) (r : Registry) : Prop where
  tidy : TidyStore store
  registered : ∀ name oid document, documentAt store name oid = some document →
    ∃ version entry, r name version = some entry ∧ Registers document version entry
  stored : ∀ name version entry, r name version = some entry →
    ∃ oid document, documentAt store name oid = some document ∧ Registers document version entry
  unique : ∀ name oid oid' document document' version, documentAt store name oid = some document →
    documentAt store name oid' = some document' →
    lookup "version" document = some (.string version) →
    lookup "version" document' = some (.string version) → oid = oid'

theorem represents_empty : Represents [] Registry.empty where
  tidy :=
    { names := List.nodup_nil
      listed := by simp
      placed := by simp [documentAt, collectionAt]
      indexable := by simp [documentAt, collectionAt] }
  registered := by simp [documentAt, collectionAt]
  stored := by simp [Registry.empty]
  unique := by simp [documentAt, collectionAt]

/-! ## The ids that are found -/

/-- What the search asks of a document. -/
def documentCriteria (version entity : String) : List (String × Object → Prop) :=
  askedFor version (fun p => lookup "version" p.2 = some (.string version)) ++
    askedFor entity fun p => entity ∈ documentEntities p.2

def Collection.held (c : Collection) : Set (String × Object) :=
  {p | c.stored p.1 = some p.2}

theorem askedFor_text {R : Type} (option : OptionText) (criterion : R → Prop) :
    askedFor option.text criterion = if option = notprovided then [] else [criterion] := by
  have htext : option.text = "notprovided" ↔ option = notprovided :=
    ⟨fun h => OptionText.ext h, fun h => by rw [h]; rfl⟩
  simp only [askedFor, htext]

/-- With two criteria an id is kept if both lists have it, or else if none is in both. -/
theorem mem_combineMatches_two {p q : List String} (hp : p.Nodup) (hq : q.Nodup) (id : String) :
    id ∈ combineMatches 2 (p ++ q) ↔
      (id ∈ p ∧ id ∈ q) ∨ (∀ x, ¬ (x ∈ p ∧ x ∈ q)) ∧ (id ∈ p ∨ id ∈ q) := by
  have hcount (x : String) : 2 ≤ (p ++ q).count x ↔ x ∈ p ∧ x ∈ q := by
    rw [List.count_append, hp.count, hq.count]
    by_cases hxp : x ∈ p <;> by_cases hxq : x ∈ q <;> simp [hxp, hxq]
  have hnone : (∀ x ∈ p ++ q, (p ++ q).count x < 2) ↔ ∀ x, ¬ (x ∈ p ∧ x ∈ q) := by
    refine ⟨fun h x hx => ?_, fun h x _ => ?_⟩
    · have hlt := h x (List.mem_append_left q hx.1)
      have htwo := (hcount x).2 hx
      omega
    · have hnot := mt (hcount x).1 (h x)
      omega
  rw [mem_combineMatches, hnone, hcount, List.mem_append]
  constructor
  · rintro ⟨hid, hk | hall | hboth⟩
    · omega
    · exact Or.inr ⟨hall, hid⟩
    · exact Or.inl hboth
  · rintro (hboth | ⟨hall, hid⟩)
    · exact ⟨Or.inl hboth.1, Or.inr (Or.inr hboth)⟩
    · exact ⟨hid, Or.inr (Or.inl hall)⟩

section Ids

variable {c : Collection} (hc : ListedCollection c)
include hc

theorem ListedCollection.mem_version (version id : String) :
    id ∈ posting version c.index.version ↔
      ∃ document, c.stored id = some document ∧
        lookup "version" document = some (.string version) := by
  rw [← mem_entries, hc.version, carriedBy]
  simp only [Set.mem_ofPred_eq, valuesOf]
  refine exists_congr fun document => and_congr_right fun _ => ?_
  unfold documentVersions
  split
  · rename_i v hv
    simp [hv, eq_comm]
  · rename_i hv
    simp only [List.not_mem_nil, false_iff]
    exact hv version

theorem ListedCollection.mem_entity (entity id : String) :
    id ∈ posting entity c.index.entities ↔
      ∃ document, c.stored id = some document ∧ entity ∈ documentEntities document := by
  rw [← mem_entries, hc.entities, carriedBy]
  rfl

/-- What the two lists say of an id is what the criteria say of its document. -/
theorem ListedCollection.both_iff (version entity id : String) :
    (id ∈ posting version c.index.version ∧ id ∈ posting entity c.index.entities) ∨
        (∀ x, ¬ (x ∈ posting version c.index.version ∧ x ∈ posting entity c.index.entities)) ∧
          (id ∈ posting version c.index.version ∨ id ∈ posting entity c.index.entities) ↔
      ∃ document, (id, document) ∈ c.held ∧
        ((lookup "version" document = some (.string version) ∧
            entity ∈ documentEntities document) ∨
          (∀ p ∈ c.held, ¬ (lookup "version" p.2 = some (.string version) ∧
            entity ∈ documentEntities p.2)) ∧
            (lookup "version" document = some (.string version) ∨
              entity ∈ documentEntities document)) := by
  have hnone : (∀ x, ¬ (x ∈ posting version c.index.version ∧
        x ∈ posting entity c.index.entities)) ↔
      ∀ p ∈ c.held, ¬ (lookup "version" p.2 = some (.string version) ∧
        entity ∈ documentEntities p.2) := by
    constructor
    · intro h p hp hboth
      exact h p.1 ⟨(hc.mem_version version p.1).2 ⟨p.2, hp, hboth.1⟩,
        (hc.mem_entity entity p.1).2 ⟨p.2, hp, hboth.2⟩⟩
    · rintro h x ⟨hx, hx'⟩
      obtain ⟨document, hstored, hversion⟩ := (hc.mem_version version x).1 hx
      obtain ⟨document', hstored', hentity⟩ := (hc.mem_entity entity x).1 hx'
      rw [hstored, Option.some.injEq] at hstored'
      rw [← hstored'] at hentity
      exact h (x, document) hstored ⟨hversion, hentity⟩
  rw [hnone, hc.mem_version, hc.mem_entity]
  cases hstored : c.stored id with
  | none => simp [Collection.held, hstored]
  | some document => simp [Collection.held, hstored]

/-- The search finds the ids of the documents that meet the criteria, or some of them. -/
theorem ListedCollection.findDocumentIDs_found (version entity : OptionText) :
    ∃ ids, findDocumentIDs c.index (versionCriteria version entity) = .ok ids ∧
      ∀ id, id ∈ ids ↔ ∃ document, Finds c.held (documentCriteria version.text entity.text)
        (id, document) := by
  have hversions := hc.mem_version version.text
  have hentities := hc.mem_entity entity.text
  have hversionIds := criterionIds_version version.text_ne c.index
  have hentityIds := criterionIds_entity entity.text_ne c.index
  have hcombined := findDocumentIDs_supported (versionCriteria_supported version entity)
  rw [documentCriteria, askedFor_text, askedFor_text]
  unfold versionCriteria criterion at hcombined ⊢
  by_cases hv : version = notprovided
  · by_cases he : entity = notprovided
    · refine ⟨c.index.ouid, by simp [findDocumentIDs, hv, he], fun id => ?_⟩
      simp [hv, he, hc.ids, finds_nil, Collection.held]
    · simp only [if_pos hv, if_neg he, List.nil_append] at hcombined ⊢
      refine ⟨_, hcombined (by simp) c.index, fun id => ?_⟩
      simp [mem_combineMatches, stringCriteria, isString, hentityIds, hentities, finds_singleton,
        Collection.held]
  · by_cases he : entity = notprovided
    · simp only [if_neg hv, if_pos he, List.append_nil] at hcombined ⊢
      refine ⟨_, hcombined (by simp) c.index, fun id => ?_⟩
      simp [mem_combineMatches, stringCriteria, isString, hversionIds, hversions, finds_singleton,
        Collection.held]
    · have hversionsNodup : (posting version.text c.index.version).Nodup :=
        (hc.wellFormed.postings .version version.text).nodup
      have hentitiesNodup : (posting entity.text c.index.entities).Nodup :=
        (hc.wellFormed.postings .entities entity.text).nodup
      have hcount : stringCriteria [("version", .string version.text),
          ("entities.name", .string entity.text)] = 2 := rfl
      simp only [if_neg hv, if_neg he, List.cons_append, List.nil_append] at hcombined ⊢
      refine ⟨_, hcombined (by simp) c.index, fun id => ?_⟩
      simp only [hcount, List.map_cons, List.map_nil, List.flatten_cons, List.flatten_nil,
        List.append_nil, hversionIds, hentityIds,
        mem_combineMatches_two hversionsNodup hentitiesNodup, finds_pair]
      exact hc.both_iff version.text entity.text id

end Ids

/-! ## The document that is selected -/

/-- The files that are listed are read. -/
theorem mapM_readFile_stored
    {c : Collection} {ids : List String}
    (hstored : ∀ id ∈ ids, ∃ document, c.stored id = some document) :
    ∃ documents, ids.mapM (readFile c) = .ok documents ∧
      ∀ document, document ∈ documents ↔ ∃ id ∈ ids, c.stored id = some document := by
  induction ids with
  | nil => exact ⟨[], rfl, by simp⟩
  | cons id ids ih =>
      obtain ⟨first, hfirst⟩ := hstored id (by simp)
      obtain ⟨documents, hread, hmem⟩ := ih fun id hid => hstored id (List.mem_cons_of_mem _ hid)
      have hfile : readFile c id = .ok first := by rw [readFile, hfirst]
      refine ⟨first :: documents, ?_, fun document => ?_⟩
      · simp [List.mapM_cons, hfile, hread, bind, Except.bind, pure, Except.pure]
      · simp [hmem, hfirst, eq_comm]

/-- Of documents with versions the one with the greatest is taken. -/
theorem foldlM_laterVersion_greatest
    {document : Object} {rest : List Object}
    (hversions : ∀ d ∈ document :: rest, ∃ v, lookup "version" d = some (.string v)) :
    ∃ latest v, rest.foldlM laterVersion document = .ok latest ∧ latest ∈ document :: rest ∧
      lookup "version" latest = some (.string v) ∧
      ∀ d ∈ document :: rest, ∀ v', lookup "version" d = some (.string v') → v' ≤ v := by
  induction rest generalizing document with
  | nil =>
      obtain ⟨v, hv⟩ := hversions document (by simp)
      refine ⟨document, v, rfl, by simp, hv, fun d hd v' hv' => ?_⟩
      rw [List.mem_singleton] at hd
      rw [hd, hv, Option.some.injEq, Value.string.injEq] at hv'
      exact hv'.ge
  | cons next rest ih =>
      obtain ⟨a, ha⟩ := hversions document (by simp)
      obtain ⟨b, hb⟩ := hversions next (by simp)
      have hlater : laterVersion document next = .ok (if a < b then next else document) := by
        have hfirst : childText "version" (.object document) = .ok a :=
          childText_of_lookup (by decide) ha
        have hsecond : childText "version" (.object next) = .ok b :=
          childText_of_lookup (by decide) hb
        rw [laterVersion, hfirst, hsecond]
        rfl
      obtain ⟨chosen, hchosen⟩ : ∃ chosen, chosen = if a < b then next else document := ⟨_, rfl⟩
      have hmem : chosen ∈ [document, next] := by
        rw [hchosen]
        split <;> simp
      obtain ⟨latest, v, hfold, hlatest, hv, hgreatest⟩ := @ih chosen fun d hd => by
        rcases List.mem_cons.1 hd with rfl | hd
        · exact hversions d (by simp only [List.mem_cons] at hmem ⊢; tauto)
        · exact hversions d (by simp [hd])
      have hboth : a ≤ v ∧ b ≤ v := by
        by_cases hlt : a < b
        · rw [if_pos hlt] at hchosen
          have hle := hgreatest chosen (by simp) b (by rw [hchosen, hb])
          exact ⟨hlt.le.trans hle, hle⟩
        · rw [if_neg hlt] at hchosen
          have hle := hgreatest chosen (by simp) a (by rw [hchosen, ha])
          exact ⟨hle, (not_lt.1 hlt).trans hle⟩
      refine ⟨latest, v, ?_, ?_, hv, fun d hd v' hv' => ?_⟩
      · rw [List.foldlM_cons, hlater, ← hchosen]
        exact hfold
      · simp only [List.mem_cons, List.not_mem_nil, or_false] at hlatest hmem ⊢
        rcases hlatest with rfl | hlatest
        · tauto
        · exact Or.inr (Or.inr hlatest)
      · rcases List.mem_cons.1 hd with rfl | hd
        · rw [ha, Option.some.injEq, Value.string.injEq] at hv'
          rw [← hv']
          exact hboth.1
        · rcases List.mem_cons.1 hd with rfl | hd
          · rw [hb, Option.some.injEq, Value.string.injEq] at hv'
            rw [← hv']
            exact hboth.2
          · exact hgreatest d (by simp [hd]) v' hv'

/-- The options ask for the names, and for nothing else. -/
structure Asks (name : VersionName) (options : ManageDocumentOperation) : Prop where
  collection : options.collection.text = name.collection
  version : options.version.text = name.version
  entity : options.entity.text = name.entityText
  queryFilter : options.queryFilter = none
  configuration : options.configuration = notprovided
  run : options.run = notprovided

theorem Asks.filter {name : VersionName} {options : ManageDocumentOperation}
    (hasks : Asks name options) :
    options.queryFilterToJsonData =
      .object (versionCriteria options.version options.entity) := by
  rw [ManageDocumentOperation.queryFilterToJsonData, hasks.queryFilter, hasks.configuration]
  simp [criterion, versionCriteria]

theorem forall₂_askedFor {R R' : Type} {Q : R → R' → Prop} {text : String} {c : R → Prop}
    {c' : R' → Prop} (h : ∀ r r', Q r r' → (c r ↔ c' r')) :
    List.Forall₂ (fun c c' => ∀ r r', Q r r' → (c r ↔ c' r')) (askedFor text c)
      (askedFor text c') := by
  unfold askedFor
  split
  · exact .nil
  · exact .cons h .nil

section Select

variable {store : Store} {r : Registry} (hstore : Represents store r) {name : VersionName}
include hstore

/-- A document and the entry of its version. -/
theorem Represents.entry {collection oid : String} {document : Object} {version : String}
    {entry : Entry} (hdocument : documentAt store collection oid = some document)
    (hregisters : Registers document version entry) : r collection version = some entry := by
  obtain ⟨version', entry', hentry, hregisters'⟩ := hstore.registered _ _ _ hdocument
  obtain ⟨rfl, rfl⟩ := hregisters.unique hregisters'
  exact hentry

/-- A document is found exactly if its entry is. -/
theorem Represents.finds_iff {oid : String} {document : Object} {version : String} {entry : Entry}
    (hdocument : documentAt store name.collection oid = some document)
    (hregisters : Registers document version entry) :
    Finds (collectionAt name.collection store).held
        (documentCriteria name.version name.entityText) (oid, document) ↔
      Finds (r name.collection).entries name.criteria (version, entry) := by
  refine finds_iff_of_related (Q := fun p q => Registers p.2 q.1 q.2) ?_ ?_ ?_ hdocument
    (hstore.entry hdocument hregisters) hregisters
  · rintro ⟨oid, document⟩ hdocument
    obtain ⟨version, entry, hentry, hregisters⟩ := hstore.registered _ _ _ hdocument
    exact ⟨(version, entry), hentry, hregisters⟩
  · rintro ⟨version, entry⟩ hentry
    obtain ⟨oid, document, hdocument, hregisters⟩ := hstore.stored _ _ _ hentry
    exact ⟨(oid, document), hdocument, hregisters⟩
  · refine List.rel_append (forall₂_askedFor fun p q hrel => ?_)
      (forall₂_askedFor fun p q hrel => hrel.entities _)
    rw [hrel.version, Option.some.injEq, Value.string.injEq]

/-- The search takes the document of the version that the registry takes. -/
theorem Represents.select_cases {options : ManageDocumentOperation} (hasks : Asks name options)
    (hnamed : name.Named) :
    (∃ version entry oid document, r.select name = some (version, entry) ∧
        documentAt store name.collection oid = some document ∧
        Registers document version entry ∧ selectDocument options store = .ok document) ∨
      (∀ p, ¬ Finds (r name.collection).entries name.criteria p) ∧ r.select name = none ∧
        ∃ e, selectDocument options store = .error e := by
  have hc := hstore.tidy.collectionAt name.collection
  obtain ⟨ids, hids, hmem⟩ := hc.findDocumentIDs_found options.version options.entity
  rw [hasks.version, hasks.entity] at hmem
  have hfilter : writeFilter (searchPayload options) =
      versionCriteria options.version options.entity := by
    apply writeFilter_of_lookup
    rw [hasks.filter]
    rfl
  obtain ⟨documents, hread, hdocuments⟩ := @mapM_readFile_stored
    (collectionAt name.collection store) ids fun id hid => by
      obtain ⟨document, hfound⟩ := (hmem id).1 hid
      exact ⟨document, hfound.1⟩
  have hlisted : readDocuments (searchPayload options) store = .ok documents := by
    simp only [readDocuments, readCollectionName_own hasks.queryFilter, hfilter,
      hasks.collection, hids, bind, Except.bind, hread]
  have hfound (document : Object) : document ∈ documents ↔
      ∃ oid, Finds (collectionAt name.collection store).held
        (documentCriteria name.version name.entityText) (oid, document) := by
    rw [hdocuments]
    constructor
    · rintro ⟨id, hid, hstored⟩
      obtain ⟨other, hother⟩ := (hmem id).1 hid
      have hsame : other = document := Option.some.inj (hother.1.symm.trans hstored)
      exact ⟨id, hsame ▸ hother⟩
    · rintro ⟨oid, hoid⟩
      exact ⟨oid, (hmem oid).2 ⟨document, hoid⟩, hoid.1⟩
  rw [Registry.select, if_pos hnamed]
  cases documents with
  | nil =>
      have hselected : selectDocument options store =
          .error (.runtimeError "No documents found.") := by
        rw [selectDocument, readDocument, hlisted]
        rfl
      have hnone (p : String × Entry) : ¬ Finds (r name.collection).entries name.criteria p := by
        intro hp
        obtain ⟨oid, document, hdocument, hregisters⟩ := hstore.stored _ _ _ hp.1
        have hmem := (hfound document).2 ⟨oid, (hstore.finds_iff hdocument hregisters).2 hp⟩
        simp at hmem
      exact Or.inr ⟨hnone, select_eq_none hnone, _, hselected⟩
  | cons document rest =>
      obtain ⟨latest, v, hfold, hlatest, hv, hgreatest⟩ :=
        @foldlM_laterVersion_greatest document rest fun d hd => by
          obtain ⟨oid, hoid⟩ := (hfound d).1 hd
          obtain ⟨version, entry, -, hregisters⟩ := hstore.registered _ _ _ hoid.1
          exact ⟨version, hregisters.version⟩
      obtain ⟨oid, hoid⟩ := (hfound latest).1 hlatest
      obtain ⟨version, entry, -, hregisters⟩ := hstore.registered _ _ _ hoid.1
      have hversion : version = v := by
        have hsame := hregisters.version.symm.trans hv
        simpa using hsame
      have hselected : selectDocument options store = .ok latest := by
        rw [selectDocument, readDocument, hlisted]
        exact hfold
      refine Or.inl ⟨version, entry, oid, latest, ?_, hoid.1, hregisters, hselected⟩
      refine select_eq_some (Versions.entries_injOn _)
        ⟨(hstore.finds_iff hoid.1 hregisters).1 hoid, fun q hq => ?_⟩
      obtain ⟨oid', document', hdocument', hregisters'⟩ := hstore.stored _ _ _ hq.1
      have hmem' := (hfound document').2 ⟨oid', (hstore.finds_iff hdocument' hregisters').2 hq⟩
      rw [hversion]
      exact hgreatest document' hmem' q.1 hregisters'.version

end Select

/-! ## A document that is filed -/

/-- A write that keeps the entities of a document is listed. -/
theorem listedCollection_written
    {c : Collection} (hc : ListedCollection c)
    (hstored : ∀ id document, c.stored id = some document → Indexable document)
    {request : WriteRequest} (hindexable : Indexable request.document)
    (hnew : request.isNew = true → c.stored request.oid = none)
    (hentities : ∀ old, c.stored request.oid = some old →
      ∀ entity ∈ documentEntities old, entity ∈ documentEntities request.document) :
    ListedCollection (c.replaced request) := by
  obtain ⟨base, hbase, hindex⟩ : ∃ base, Unlisted c request.oid base ∧
      (c.replaced request).index = indexDocument request.document request.oid base := by
    have hadd := addDocument_run hindexable request.oid_ne
    cases hold : c.stored request.oid with
    | none =>
        have hwithout : c.indexWithout request = c.index := by
          simp [Collection.indexWithout, hold]
        refine ⟨c.index, unlisted_of_absent hold, ?_⟩
        rw [Collection.replaced, hwithout, after_of_ok (hadd c.index)]
    | some old =>
        have hoverwrite : request.isNew = false := by
          cases hisNew : request.isNew with
          | false => rfl
          | true => simp [hnew hisNew] at hold
        have hremove := removeDocument_run (hstored _ _ hold) request.oid_ne c.index
        have hwithout : c.indexWithout request = unindexDocument old request.oid c.index := by
          rw [Collection.indexWithout, hoverwrite, hold]
          exact after_of_ok hremove
        refine ⟨_, unlisted_unindexDocument hc.configurations hold, ?_⟩
        rw [Collection.replaced, hwithout, after_of_ok (hadd _)]
  have hlists : ∀ {attr : Object → List String} {t t' : Postings},
      entries t = entries t' \ stale (valuesOf attr) (c.stored request.oid) request.oid →
      entries t' = carriedBy (valuesOf attr) c.stored →
      entries ((attr request.document).foldl (fun t v => insertPosting v request.oid t) t) =
        carriedBy (valuesOf attr) (c.replaced request).stored := by
    intro attr t t' ht ht'
    rw [stored_replaced, carriedBy_update, entries_foldl_insertPosting, ht, ht']
    rfl
  constructor
  · exact wellFormed_replaced hc.wellFormed request
  · intro id
    rw [stored_replaced, hindex, indexDocument, mem_sortUnique, List.mem_append,
      List.mem_singleton]
    by_cases hid : id = request.oid
    · simp [hid]
    · rw [hbase.ids id hid, hc.ids, Function.update_of_ne hid]
      simp [hid]
  · rw [hindex]
    exact hlists hbase.version hc.version
  · rw [hindex]
    exact hlists hbase.configurations hc.configurations
  · have hunion : entries (c.replaced request).index.entities =
        carriedBy (valuesOf documentEntities) c.stored ∪
          {p | p.1 ∈ valuesOf documentEntities request.document ∧ p.2 = request.oid} := by
      rw [hindex, ← hc.entities, ← hbase.entities]
      exact entries_foldl_insertPosting _ _ _
    rw [hunion, stored_replaced]
    exact (carriedBy_update_eq_union_iff.2 hentities).symm

theorem TidyStore.writeStep
    {store : Store} (hstore : TidyStore store) {env : Environment} {arg : Value}
    {request : WriteRequest} (hrequest : writeRequest env arg = .ok request)
    (hplaced : Placed request.collection request.oid request.document)
    (hindexable : Indexable request.document)
    (hentities : ∀ old, documentAt store request.collection request.oid = some old →
      ∀ entity ∈ documentEntities old, entity ∈ documentEntities request.document) :
    TidyStore (writeStep store (env, arg)) := by
  have hafter := documentAt_writeStep hrequest store
  have hlisted : ListedCollection
      ((collectionAt request.collection store).afterWrite request) := by
    have hc := hstore.collectionAt request.collection
    rw [Collection.afterWrite]
    cases hcheck : checkInsert request (collectionAt request.collection store) with
    | ok u =>
        exact listedCollection_written hc
          (fun id document hdocument => hstore.indexable request.collection id document hdocument)
          hindexable (fun hnew => checkInsert_absent hcheck hnew) hentities
    | error e => exact hc
  constructor
  · rw [ArtdaqDatabase.writeStep, after_writeDocument hrequest]
    exact hstore.toListedStore.set hlisted
  · intro name oid document hdocument
    rw [hafter] at hdocument
    split at hdocument
    · rename_i hplace
      rw [Option.some.injEq] at hdocument
      rw [← hdocument, hplace.1, hplace.2.1]
      exact hplaced
    · exact hstore.placed name oid document hdocument
  · intro name oid document hdocument
    rw [hafter] at hdocument
    split at hdocument
    · rw [Option.some.injEq] at hdocument
      rw [← hdocument]
      exact hindexable
    · exact hstore.indexable name oid document hdocument

/-- A document that is filed is registered, in the place of the one it replaces. -/
theorem Represents.writeStep
    {store : Store} {r : Registry} (hstore : Represents store r) {env : Environment} {arg : Value}
    {request : WriteRequest} (hrequest : writeRequest env arg = .ok request)
    (hcheck : checkInsert request (collectionAt request.collection store) = .ok ())
    (hplaced : Placed request.collection request.oid request.document)
    (hindexable : Indexable request.document) {version : String} {entry : Entry}
    (hregisters : Registers request.document version entry)
    (hentities : ∀ old, documentAt store request.collection request.oid = some old →
      ∀ entity ∈ documentEntities old, entity ∈ documentEntities request.document)
    {old : Option String}
    (hold : ∀ v, old = some v ↔ ∃ document,
      documentAt store request.collection request.oid = some document ∧
        lookup "version" document = some (.string v))
    (hfree : ∀ oid document, documentAt store request.collection oid = some document →
      lookup "version" document = some (.string version) → oid = request.oid) :
    Represents (writeStep store (env, arg)) (r.move request.collection old version entry) := by
  have hafter (name oid : String) :
      documentAt (ArtdaqDatabase.writeStep store (env, arg)) name oid =
      if name = request.collection ∧ oid = request.oid then some request.document
      else documentAt store name oid := by
    rw [documentAt_writeStep hrequest]
    simp only [hcheck, and_true]
  constructor
  · exact hstore.tidy.writeStep hrequest hplaced hindexable hentities
  · intro name oid document hdocument
    rw [hafter] at hdocument
    split at hdocument
    · rename_i hplace
      rw [Option.some.injEq] at hdocument
      rw [← hdocument, hplace.1]
      exact ⟨version, entry, by simp [Registry.move_apply], hregisters⟩
    · rename_i hplace
      obtain ⟨version', entry', hentry, hregisters'⟩ := hstore.registered _ _ _ hdocument
      refine ⟨version', entry', ?_, hregisters'⟩
      rw [Registry.move_apply, if_neg, if_neg, hentry]
      · rintro ⟨rfl, hv⟩
        obtain ⟨replaced, hreplaced, hversion⟩ := (hold version').1 hv
        exact hplace ⟨rfl, hstore.unique _ _ _ _ _ _ hdocument hreplaced hregisters'.version
          hversion⟩
      · rintro ⟨rfl, rfl⟩
        exact hplace ⟨rfl, hfree _ _ hdocument hregisters'.version⟩
  · intro name version' entry' hentry
    rw [Registry.move_apply] at hentry
    split at hentry
    · rename_i hnew
      rw [Option.some.injEq] at hentry
      refine ⟨request.oid, request.document, ?_, ?_⟩
      · rw [hafter, if_pos ⟨hnew.1, rfl⟩]
      · rw [← hentry, hnew.2]
        exact hregisters
    · split at hentry
      · cases hentry
      · rename_i hkept
        obtain ⟨oid, document, hdocument, hregisters'⟩ := hstore.stored _ _ _ hentry
        refine ⟨oid, document, ?_, hregisters'⟩
        rw [hafter, if_neg, hdocument]
        rintro ⟨rfl, rfl⟩
        exact hkept ⟨rfl, (hold version').2 ⟨document, hdocument, hregisters'.version⟩⟩
  · intro name oid oid' document document' v hdocument hdocument' hv hv'
    rw [hafter] at hdocument hdocument'
    split at hdocument <;> split at hdocument'
    · rename_i hplace hplace'
      rw [hplace.2, hplace'.2]
    · rename_i hplace _
      rw [Option.some.injEq] at hdocument
      rw [← hdocument, hregisters.version, Option.some.injEq, Value.string.injEq] at hv
      rw [← hv] at hv'
      rw [hplace.1] at hdocument'
      rw [hplace.2, hfree _ _ hdocument' hv']
    · rename_i _ hplace
      rw [Option.some.injEq] at hdocument'
      rw [← hdocument', hregisters.version, Option.some.injEq, Value.string.injEq] at hv'
      rw [← hv'] at hv
      rw [hplace.1] at hdocument
      rw [hplace.2, hfree _ _ hdocument hv]
    · exact hstore.unique _ _ _ _ _ _ hdocument hdocument' hv hv'

end ArtdaqDatabase
