import ArtdaqDatabase.GlobalConfigurations

/-!
# Tidy stores

In a listed store the index of each collection lists the ids, versions, configurations
and entities of its documents and nothing else; in a tidy one every document also
names its own file and can be indexed.  An edit of a configuration keeps both up and
changes no selection by version and entity.
-/

namespace ArtdaqDatabase

open OrderedTable InPlaceUpdate InterruptedRemoval InvertedIndex SortedUnique

/-! ## The names of a list -/

theorem mem_namesOf {entries : List Value} {name : String} :
    name ∈ namesOf entries ↔ ∃ entry ∈ entries, nameOf entry = .ok name := by
  rw [namesOf, List.mem_filterMap]
  refine exists_congr fun entry => and_congr_right fun _ => ?_
  cases nameOf entry <;> simp [Except.toOption]

section Named

variable {entries : List Value} (env : Environment) (name : String)

@[simp]
theorem nameOf_stamped : nameOf (stamped env name) = .ok name := rfl

theorem containsName_of_named (hnamed : EntriesNamed entries) :
    containsName (stamped env name) entries = .ok (decide (name ∈ namesOf entries)) := by
  induction entries with
  | nil => rfl
  | cons entry rest ih =>
      obtain ⟨first, hfirst, -⟩ := hnamed entry (by simp)
      have hrest := ih fun e he => hnamed e (List.mem_cons_of_mem _ he)
      have hnames : namesOf (entry :: rest) = first :: namesOf rest := by
        simp [namesOf, hfirst, Except.toOption]
      rw [containsName, hfirst, hnames]
      by_cases heq : first = name
      · simp [heq, bind, Except.bind]
      · have hne : name ≠ first := fun h => heq h.symm
        simp [heq, hne, hrest, bind, Except.bind]

theorem removeNamed_of_named (hnamed : EntriesNamed entries) :
    removeNamed (stamped env name) entries =
      entries.filter fun entry => (nameOf entry).toOption ≠ some name := by
  have htest : ∀ x ∈ entries,
      isNamedAs (stamped env name) x = .ok (decide ((nameOf x).toOption = some name)) := by
    intro x hx
    obtain ⟨first, hfirst, -⟩ := hnamed x hx
    simp [isNamedAs, hfirst, Except.toOption, bind, Except.bind]
  have hanswers : ∀ x ∈ entries, answers (isNamedAs (stamped env name)) x = true := by
    intro x hx
    rw [answers, htest x hx]
    rfl
  rw [removeNamed, removeIf_of_answers hanswers]
  refine List.filter_congr fun x hx => ?_
  rw [taken, htest x hx]
  simp

theorem mem_namesOf_addNamed (hnamed : EntriesNamed entries) (x : String) :
    x ∈ namesOf (addNamed (stamped env name) entries) ↔ x ∈ namesOf entries ∨ x = name := by
  rw [addNamed, containsName_of_named env name hnamed]
  by_cases hmem : name ∈ namesOf entries
  · simp only [hmem, decide_true]
    constructor
    · exact Or.inl
    · rintro (hx | rfl)
      · exact hx
      · exact hmem
  · have happend : namesOf (entries ++ [stamped env name]) = namesOf entries ++ [name] := by
      simp [namesOf, Except.toOption]
    simp only [hmem, decide_false, happend, List.mem_append, List.mem_singleton]

theorem mem_namesOf_removeNamed (hnamed : EntriesNamed entries) (x : String) :
    x ∈ namesOf (removeNamed (stamped env name) entries) ↔ x ∈ namesOf entries ∧ x ≠ name := by
  rw [removeNamed_of_named env name hnamed]
  simp only [mem_namesOf, List.mem_filter, decide_eq_true_eq]
  constructor
  · rintro ⟨entry, ⟨hentry, hne⟩, hx⟩
    refine ⟨⟨entry, hentry, hx⟩, ?_⟩
    rintro rfl
    exact hne (by simp [hx, Except.toOption])
  · rintro ⟨⟨entry, hentry, hx⟩, hne⟩
    exact ⟨entry, ⟨hentry, by simpa [hx, Except.toOption] using hne⟩, hx⟩

theorem EntriesAssigned.named {configs : List Value} (h : EntriesAssigned configs) :
    EntriesNamed configs := by
  intro config hconfig
  obtain ⟨name, assigned, hassignment, hname, -⟩ := h config hconfig
  exact ⟨name, (assignmentOf_eq_ok.1 hassignment).1, hname⟩

theorem EntriesAssigned.addNamed (h : EntriesAssigned entries) (hname : name ≠ "") :
    EntriesAssigned (addNamed (stamped env name) entries) := by
  intro config hconfig
  rcases mem_addNamed hconfig with hold | rfl
  · exact h config hold
  · have htimestamp : env.timestamp ≠ "" := by
      intro hempty
      have hiso := env.timestamp_iso
      rw [hempty] at hiso
      exact absurd hiso (by decide)
    exact ⟨name, env.timestamp, rfl, hname, htimestamp⟩

theorem EntriesAssigned.removeNamed (h : EntriesAssigned entries) :
    EntriesAssigned (removeNamed (stamped env name) entries) := by
  intro config hconfig
  rw [removeNamed_of_named env name h.named] at hconfig
  exact h config (List.mem_of_mem_filter hconfig)

end Named

/-! ## Editing one document -/

/-- What an edit of a configuration leaves of a document. -/
structure Reassigned (edit : ConfigurationEdit) (configuration : String)
    (document document' : Object) : Prop where
  accepted : Accepted document'
  indexable : Indexable document'
  lookup_eq : ∀ k, k ∉ ["configurations", "bookkeeping"] →
    lookup k document' = lookup k document
  writable_iff : Writable document' ↔ Writable document
  others : ∀ x, x ≠ configuration →
    (x ∈ documentConfigurations document' ↔ x ∈ documentConfigurations document)
  carries_iff : configuration ∈ documentConfigurations document' ↔
    if Writable document then edit = .assign else configuration ∈ documentConfigurations document

section Document

variable {document : Object} (haccepted : Accepted document) (hindexable : Indexable document)
  {configuration : String} (env : Environment)
include haccepted hindexable

omit haccepted in
theorem reassigned_of_listEdit
    (hwritable : Writable document) {edit : ConfigurationEdit} {document' : Object}
    {f : List Value → List Value} (hedit : ListEdit "configurations" f document document')
    (hlookup : ∀ k, k ∉ ["configurations", "bookkeeping"] →
      lookup k document' = lookup k document)
    (hassigned : ∀ entries, EntriesAssigned entries → EntriesAssigned (f entries))
    (hnames : ∀ entries, EntriesNamed entries → ∀ x, x ∈ namesOf (f entries) ↔
      if x = configuration then edit = .assign else x ∈ namesOf entries) :
    Reassigned edit configuration document document' := by
  obtain ⟨sections⟩ := hindexable
  have hkept := hedit.kept
  have hentries := hedit.entries_eq _ sections.configurations_lookup
  have hconfigurations : ∀ x, x ∈ documentConfigurations document' ↔
      if x = configuration then edit = .assign else x ∈ documentConfigurations document := by
    intro x
    rw [documentConfigurations, sectionEntries, hentries, documentConfigurations, sectionEntries,
      sections.configurations_lookup]
    exact hnames _ sections.configurations_assigned.named x
  refine
    { accepted := hkept.accepted
      indexable := ⟨{ sections with
        configurations := f sections.configurations
        version_lookup := by rw [hlookup "version" (by decide), sections.version_lookup]
        configurations_lookup := hentries
        entities_lookup := by rw [hlookup "entities" (by decide), sections.entities_lookup]
        aliases_lookup := by rw [hlookup "aliases" (by decide), sections.aliases_lookup]
        runs_lookup := by rw [hlookup "runs" (by decide), sections.runs_lookup]
        configurations_assigned := hassigned _ sections.configurations_assigned }⟩
      lookup_eq := hlookup
      writable_iff := iff_of_true (hkept.writable hwritable) hwritable
      others := fun x hx => by rw [hconfigurations, if_neg hx]
      carries_iff := by rw [hconfigurations, if_pos rfl, if_pos hwritable] }

theorem reassigned_builderEdit
    (edit : ConfigurationEdit) {options : ManageDocumentOperation}
    (hconfiguration : options.configuration.text = configuration) :
    Reassigned edit configuration document
      (builderEdit env (edit.operation options) document) := by
  by_cases hwritable : Writable document
  · have hlookup : ∀ k, k ∉ ["configurations", "bookkeeping"] →
        lookup k (builderEdit env (edit.operation options) document) = lookup k document := by
      intro k hk
      apply lookup_builderEdit_of_untouched
      cases edit <;> simpa [ConfigurationEdit.operation, touchedKeys] using hk
    cases edit with
    | assign =>
        have hedit := addConfiguration_edit env haccepted hwritable options.configuration.text
        rw [hconfiguration] at hedit
        refine reassigned_of_listEdit hindexable hwritable
          (by rw [ConfigurationEdit.operation, hconfiguration]; exact hedit) hlookup
          (fun entries h => h.addNamed env configuration
            (hconfiguration ▸ options.configuration.text_ne)) fun entries hnamed x => ?_
        rw [mem_namesOf_addNamed env configuration hnamed]
        split <;> simp_all
    | remove =>
        have hedit := removeConfiguration_edit env haccepted hwritable options.configuration.text
        rw [hconfiguration] at hedit
        refine reassigned_of_listEdit hindexable hwritable
          (by rw [ConfigurationEdit.operation, hconfiguration]; exact hedit) hlookup
          (fun entries h => h.removeNamed env configuration) fun entries hnamed x => ?_
        rw [mem_namesOf_removeNamed env configuration hnamed]
        split <;> simp_all
  · have hsame : builderEdit env (edit.operation options) document = document := by
      apply builderEdit_of_not_writable hwritable
      cases edit <;> rfl
    rw [hsame]
    exact
      { accepted := haccepted
        indexable := hindexable
        lookup_eq := fun _ _ => rfl
        writable_iff := Iff.rfl
        others := fun _ _ => Iff.rfl
        carries_iff := by rw [if_neg hwritable] }

end Document

/-! ## Listed collections -/

/-- The index lists the ids, the versions, the configurations and the entities of the
stored documents. -/
structure ListedCollection (c : Collection) : Prop where
  wellFormed : c.index.WellFormed
  ids : ∀ id, id ∈ c.index.ouid ↔ ∃ document, c.stored id = some document
  version : entries c.index.version = carriedBy (valuesOf documentVersions) c.stored
  configurations :
    entries c.index.configurations = carriedBy (valuesOf documentConfigurations) c.stored
  entities : entries c.index.entities = carriedBy (valuesOf documentEntities) c.stored

theorem CoherentCollection.listed {c : Collection} (hc : CoherentCollection c) :
    ListedCollection c where
  wellFormed := hc.wellFormed
  ids := hc.coherent.ids
  version := hc.coherent.version
  configurations := hc.coherent.configurations
  entities := hc.coherent.entities

theorem listedCollection_empty : ListedCollection Collection.empty where
  wellFormed := SearchIndex.wellFormed_empty
  ids := followable_empty.coherent.ids
  version := followable_empty.coherent.version
  configurations := followable_empty.coherent.configurations
  entities := followable_empty.coherent.entities

/-- A document is replaced by one with its entities. -/
theorem listedCollection_replaced
    {c : Collection} (hc : ListedCollection c) {request : WriteRequest} {old : Object}
    (hstored : c.stored request.oid = some old) (hnew : request.isNew = false)
    (hold : Indexable old) (hindexable : Indexable request.document)
    (hentities : documentEntities request.document = documentEntities old) :
    ListedCollection (c.replaced request) := by
  have hbase := unlisted_unindexDocument hc.configurations hstored
  have hremove := removeDocument_run hold request.oid_ne c.index
  have hadd := addDocument_run hindexable request.oid_ne
    (unindexDocument old request.oid c.index)
  have hindex : (c.replaced request).index =
      indexDocument request.document request.oid (unindexDocument old request.oid c.index) := by
    have hwithout : c.indexWithout request = unindexDocument old request.oid c.index := by
      rw [Collection.indexWithout, hnew, hstored]
      exact after_of_ok hremove
    rw [Collection.replaced, hwithout, after_of_ok hadd]
  have hlists : ∀ {attr : Object → List String} {t t' : Postings},
      entries t = entries t' \ stale (valuesOf attr) (c.stored request.oid) request.oid →
      entries t' = carriedBy (valuesOf attr) c.stored →
      entries ((attr request.document).foldl (fun t v => insertPosting v request.oid t) t) =
        carriedBy (valuesOf attr) (c.replaced request).stored := by
    intro attr t t' ht ht'
    rw [stored_replaced, carriedBy_update, entries_foldl_insertPosting, ht, ht']
    rfl
  constructor
  · exact wellFormed_replaced hc.wellFormed request
  · intro id
    rw [stored_replaced, hindex, indexDocument, mem_sortUnique, List.mem_append,
      List.mem_singleton]
    by_cases hid : id = request.oid
    · simp [hid]
    · rw [hbase.ids id hid, hc.ids, Function.update_of_ne hid]
      simp [hid]
  · rw [hindex]
    exact hlists hbase.version hc.version
  · rw [hindex]
    exact hlists hbase.configurations hc.configurations
  · have hunion : entries (c.replaced request).index.entities =
        carriedBy (valuesOf documentEntities) c.stored ∪
          {p | p.1 ∈ valuesOf documentEntities request.document ∧ p.2 = request.oid} := by
      rw [hindex, ← hc.entities, ← hbase.entities]
      exact entries_foldl_insertPosting _ _ _
    rw [hunion, stored_replaced]
    refine (carriedBy_update_eq_union_iff.2 fun document hdocument => ?_).symm
    rw [hstored, Option.some.injEq] at hdocument
    rw [← hdocument]
    intro entity hentity
    rw [valuesOf, Set.mem_ofPred_eq, hentities]
    exact hentity

/-! ## Listed stores -/

structure ListedStore (store : Store) : Prop where
  names : (store.map Prod.fst).Nodup
  listed : ∀ name c, (name, c) ∈ store → ListedCollection c

theorem CoherentStore.listed {store : Store} (hstore : CoherentStore store) :
    ListedStore store where
  names := hstore.names
  listed name c hmem := (hstore.coherent name c hmem).listed

theorem ListedStore.collectionAt {store : Store} (hstore : ListedStore store) (name : String) :
    ListedCollection (collectionAt name store) := by
  unfold ArtdaqDatabase.collectionAt
  cases hlookup : lookup name store with
  | none => exact listedCollection_empty
  | some c => exact hstore.listed name c (mem_of_lookup hlookup)

theorem ListedStore.set {store : Store} (hstore : ListedStore store) {name : String}
    {c : Collection} (hc : ListedCollection c) : ListedStore (set name c store) where
  names := by
    rw [keys_set]
    split
    · exact hstore.names
    · rename_i hname
      refine List.nodup_append.2 ⟨hstore.names, List.nodup_singleton name, ?_⟩
      intro other hother last hlast
      rw [List.mem_singleton.1 hlast]
      exact ne_of_mem_of_not_mem hother hname
  listed := by
    intro name' c' hmem
    rcases mem_set hmem with hnew | hold
    · rw [Prod.mk.injEq] at hnew
      rw [hnew.2]
      exact hc
    · exact hstore.listed name' c' hold

/-- A tidy store: in addition every document names its file and can be indexed. -/
structure TidyStore (store : Store) : Prop extends ListedStore store where
  placed : ∀ name oid document, documentAt store name oid = some document →
    Placed name oid document
  indexable : ∀ name oid document, documentAt store name oid = some document →
    Indexable document

/-- The documents have the same version, entities and flags. -/
structure Alike (document document' : Object) : Prop where
  version : lookup "version" document' = lookup "version" document
  entities : lookup "entities" document' = lookup "entities" document
  writable : Writable document' ↔ Writable document

/-- The stores have alike documents at the same places. -/
def AlikeStores (store store' : Store) : Prop :=
  ∀ name oid, Option.Rel Alike (documentAt store name oid) (documentAt store' name oid)

theorem Alike.refl (document : Object) : Alike document document :=
  ⟨rfl, rfl, Iff.rfl⟩

theorem Alike.symm {document document' : Object} (h : Alike document document') :
    Alike document' document :=
  ⟨h.version.symm, h.entities.symm, h.writable.symm⟩

theorem Alike.trans {document document' document'' : Object} (h : Alike document document')
    (h' : Alike document' document'') : Alike document document'' :=
  ⟨h'.version.trans h.version, h'.entities.trans h.entities, h'.writable.trans h.writable⟩

theorem AlikeStores.refl (store : Store) : AlikeStores store store := by
  intro name oid
  cases documentAt store name oid with
  | none => exact Option.Rel.none
  | some document => exact Option.Rel.some (Alike.refl document)

theorem AlikeStores.symm {store store' : Store} (h : AlikeStores store store') :
    AlikeStores store' store := by
  intro name oid
  have hplace := h name oid
  generalize documentAt store name oid = first at hplace ⊢
  generalize documentAt store' name oid = second at hplace ⊢
  cases hplace with
  | none => exact Option.Rel.none
  | some halike => exact Option.Rel.some halike.symm

theorem AlikeStores.trans {store store' store'' : Store} (h : AlikeStores store store')
    (h' : AlikeStores store' store'') : AlikeStores store store'' := by
  intro name oid
  have hfirst := h name oid
  have hsecond := h' name oid
  generalize documentAt store name oid = first at hfirst ⊢
  generalize documentAt store' name oid = second at hfirst hsecond
  generalize documentAt store'' name oid = third at hsecond ⊢
  cases hfirst with
  | none => exact hsecond
  | some halike =>
      cases hsecond with
      | some halike' => exact Option.Rel.some (halike.trans halike')

theorem AlikeStores.documentAt {store store' : Store} (h : AlikeStores store store')
    {name oid : String} {document : Object} (hdocument : documentAt store name oid = some document) :
    ∃ document', documentAt store' name oid = some document' ∧ Alike document document' := by
  have hplace := h name oid
  rw [hdocument] at hplace
  cases hother : ArtdaqDatabase.documentAt store' name oid with
  | none =>
      rw [hother] at hplace
      cases hplace
  | some document' =>
      rw [hother] at hplace
      cases hplace
      exact ⟨document', rfl, ‹_›⟩

/-! ## Selections -/

/-- The search for the document of a member. -/
def memberSearch (member : VersionInfo) : Value :=
  .object
    [("filter", .object (versionFilter member.version member.entity)),
      ("collection", .string (provided member.configuration).text)]

theorem selectDocument_memberOptions
    (edit : ConfigurationEdit) (configuration : OptionText) (member : VersionInfo)
    (store : Store) :
    selectDocument (memberOptions edit configuration member) store =
      readDocument (memberSearch member) store := rfl

/-- The search for the member finds the document of the file. -/
def Selects (store : Store) (member : VersionInfo) (oid : String) : Prop :=
  ∃ document, documentAt store (provided member.configuration).text oid = some document ∧
    readDocument (memberSearch member) store = .ok document

theorem readCollectionName_memberSearch (member : VersionInfo) :
    readCollectionName (memberSearch member) = .ok (provided member.configuration).text := by
  have hfilter : writeFilter (memberSearch member) =
      versionFilter member.version member.entity := writeFilter_of_lookup rfl
  have habsent : childText "collection"
      (.object (versionFilter member.version member.entity)) = .error (.notFound "collection") :=
    childText_of_absent rfl
  have hcollection : childText "collection" (memberSearch member) =
      .ok (provided member.configuration).text :=
    @childText_of_lookup "collection" _ (.string (provided member.configuration).text)
      (by decide) rfl
  simp [readCollectionName, hfilter, habsent, hcollection, confirm,
    (provided member.configuration).text_ne, bind, Except.bind, Except.toOption]

theorem readDocuments_memberSearch (member : VersionInfo) (store : Store) :
    readDocuments (memberSearch member) store = (do
      let oids ← findDocumentIDs
        (collectionAt (provided member.configuration).text store).index
        (versionFilter member.version member.entity)
      oids.mapM (readFile (collectionAt (provided member.configuration).text store))) := by
  have hfilter : writeFilter (memberSearch member) =
      versionFilter member.version member.entity := writeFilter_of_lookup rfl
  simp only [readDocuments, readCollectionName_memberSearch, hfilter, bind, Except.bind]

theorem findDocumentIDs_versionFilter (index : SearchIndex) (version entity : String) :
    findDocumentIDs index (versionFilter version entity) = (do
      let versions ← matchTable version index.version
      let entities ← matchTable entity index.entities
      .ok (combineMatches 2 (versions ++ entities))) := by
  have hne : versionFilter version entity ≠ [] := by simp [versionFilter]
  rw [findDocumentIDs, if_neg hne]
  simp only [versionFilter, List.foldlM_cons, List.foldlM_nil, matchCriterion,
    runMatchingFunction, matchVersion, matchEntity]
  cases matchTable version index.version <;>
    cases matchTable entity index.entities <;> simp [bind, Except.bind, pure, Except.pure]

/-- The two stores have the documents at one place of the collection. -/
def SamePlace (store store' : Store) (name : String) (document document' : Object) : Prop :=
  ∃ oid, documentAt store name oid = some document ∧ documentAt store' name oid = some document'

section Alike

variable {store store' : Store} (hstore : TidyStore store) (hstore' : TidyStore store')
  (halike : AlikeStores store store')

theorem Alike.childText_version {document document' : Object} (h : Alike document document') :
    childText "version" (.object document') = childText "version" (.object document) := by
  simp only [childText, findChild, findChildValue, h.version]

theorem Alike.documentVersions {document document' : Object} (h : Alike document document') :
    documentVersions document' = documentVersions document := by
  rw [ArtdaqDatabase.documentVersions, ArtdaqDatabase.documentVersions, h.version]

theorem Alike.documentEntities {document document' : Object} (h : Alike document document') :
    documentEntities document' = documentEntities document := by
  simp only [ArtdaqDatabase.documentEntities, sectionEntries, h.entities]

include halike in
/-- An attribute that alike documents share is carried by the same documents. -/
theorem AlikeStores.carriedBy_eq
    {attr : Object → List String}
    (hattr : ∀ document document', Alike document document' → attr document' = attr document)
    (name : String) :
    carriedBy (valuesOf attr) (collectionAt name store').stored =
      carriedBy (valuesOf attr) (collectionAt name store).stored := by
  ext ⟨value, oid⟩
  constructor
  · rintro ⟨document', hdocument', hvalue⟩
    obtain ⟨document, hdocument, h⟩ := halike.symm.documentAt hdocument'
    refine ⟨document, hdocument, ?_⟩
    rw [valuesOf, hattr document' document h]
    exact hvalue
  · rintro ⟨document, hdocument, hvalue⟩
    obtain ⟨document', hdocument', h⟩ := halike.documentAt hdocument
    refine ⟨document', hdocument', ?_⟩
    rw [valuesOf, hattr document document' h]
    exact hvalue

theorem posting_eq_of_entries
    {t t' : Postings} (hsorted : SortedPostings t) (hsorted' : SortedPostings t')
    (hentries : entries t' = entries t) (value : String) :
    posting value t' = posting value t := by
  refine (hsorted' value).eq_of_mem_iff (hsorted value) fun id => ?_
  rw [← mem_entries, ← mem_entries, hentries]

include hstore hstore' halike

theorem findDocumentIDs_alike (name version entity : String) :
    findDocumentIDs (collectionAt name store').index (versionFilter version entity) =
      findDocumentIDs (collectionAt name store).index (versionFilter version entity) := by
  have hc := hstore.collectionAt name
  have hc' := hstore'.collectionAt name
  have hversions := posting_eq_of_entries (hc.wellFormed.postings .version)
    (hc'.wellFormed.postings .version) (hc'.version.trans
      ((halike.carriedBy_eq (fun _ _ h => h.documentVersions) name).trans hc.version.symm)) version
  have hentities := posting_eq_of_entries (hc.wellFormed.postings .entities)
    (hc'.wellFormed.postings .entities) (hc'.entities.trans
      ((halike.carriedBy_eq (fun _ _ h => h.documentEntities) name).trans hc.entities.symm)) entity
  change posting version (collectionAt name store').index.version =
    posting version (collectionAt name store).index.version at hversions
  change posting entity (collectionAt name store').index.entities =
    posting entity (collectionAt name store).index.entities at hentities
  simp only [findDocumentIDs_versionFilter, matchTable, hversions, hentities]

omit hstore hstore' in
theorem mapM_readFile_alike
    {name : String} {oids : List String} {documents : List Object}
    (hread : oids.mapM (readFile (collectionAt name store)) = .ok documents) :
    ∃ documents', oids.mapM (readFile (collectionAt name store')) = .ok documents' ∧
      List.Forall₂ (SamePlace store store' name) documents documents' := by
  induction oids generalizing documents with
  | nil =>
      simp only [List.mapM_nil, pure, Except.pure, Except.ok.injEq] at hread
      exact ⟨[], rfl, hread ▸ List.Forall₂.nil⟩
  | cons oid oids ih =>
      simp only [List.mapM_cons, bind_eq_ok, pure, Except.pure, Except.ok.injEq] at hread
      obtain ⟨document, hdocument, rest, hrest, rfl⟩ := hread
      obtain ⟨rest', hrest', hplaces⟩ := ih hrest
      have hstored : documentAt store name oid = some document := by
        unfold readFile at hdocument
        unfold documentAt
        cases hfile : (collectionAt name store).stored oid with
        | none => simp [hfile] at hdocument
        | some stored => simpa [hfile] using hdocument
      obtain ⟨document', hstored', -⟩ := halike.documentAt hstored
      have hfile' : readFile (collectionAt name store') oid = .ok document' := by
        rw [readFile, show (collectionAt name store').stored oid = some document' from hstored']
      refine ⟨document' :: rest', ?_, List.Forall₂.cons ⟨oid, hstored, hstored'⟩ hplaces⟩
      simp [List.mapM_cons, hfile', hrest', bind, Except.bind, pure, Except.pure]

omit hstore hstore' in
theorem foldlM_laterVersion_alike
    {name : String} {rest rest' : List Object} {document document' latest : Object}
    (hrest : List.Forall₂ (SamePlace store store' name) rest rest')
    (hplace : SamePlace store store' name document document')
    (hfold : rest.foldlM laterVersion document = .ok latest) :
    ∃ latest', rest'.foldlM laterVersion document' = .ok latest' ∧
      SamePlace store store' name latest latest' := by
  have hversion : ∀ {document document' : Object}, SamePlace store store' name document document' →
      childText "version" (.object document') = childText "version" (.object document) := by
    rintro document document' ⟨oid, hstored, hstored'⟩
    obtain ⟨other, hother, h⟩ := halike.documentAt hstored
    rw [hstored', Option.some.injEq] at hother
    rw [hother]
    exact h.childText_version
  induction hrest generalizing document document' with
  | nil =>
      simp only [List.foldlM_nil, pure, Except.pure, Except.ok.injEq] at hfold
      exact ⟨document', rfl, hfold ▸ hplace⟩
  | @cons first first' _ _ hhead _ ih =>
      simp only [List.foldlM_cons, bind_eq_ok] at hfold ⊢
      obtain ⟨largest, hlargest, hfold⟩ := hfold
      simp only [laterVersion, bind_eq_ok, Except.ok.injEq] at hlargest
      obtain ⟨a, ha, b, hb, hlargest⟩ := hlargest
      have hchosen : SamePlace store store' name largest (if a < b then first' else document') := by
        rw [← hlargest]
        split
        · exact hhead
        · exact hplace
      obtain ⟨latest', hfold', hlatest⟩ := ih hchosen hfold
      refine ⟨latest', ⟨_, ?_, hfold'⟩, hlatest⟩
      rw [laterVersion, hversion hplace, hversion hhead, ha, hb]
      rfl

/-- A search for a member finds alike documents at one place. -/
theorem readDocument_alike
    {member : VersionInfo} {document : Object}
    (hread : readDocument (memberSearch member) store = .ok document) :
    ∃ document', readDocument (memberSearch member) store' = .ok document' ∧
      SamePlace store store' (provided member.configuration).text document document' := by
  simp only [readDocument, readDocuments_memberSearch, bind_eq_ok] at hread ⊢
  obtain ⟨documents, ⟨oids, hoids, hfiles⟩, hlatest⟩ := hread
  rw [← findDocumentIDs_alike hstore hstore' halike] at hoids
  obtain ⟨documents', hfiles', hplaces⟩ := mapM_readFile_alike halike hfiles
  cases hplaces with
  | nil => simp at hlatest
  | cons hhead htail =>
      obtain ⟨latest', hlatest', hplace⟩ := foldlM_laterVersion_alike halike htail hhead hlatest
      exact ⟨latest', ⟨_, ⟨oids, hoids, hfiles'⟩, hlatest'⟩, hplace⟩

end Alike

end ArtdaqDatabase
