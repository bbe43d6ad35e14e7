import ArtdaqDatabase.InsertUniqueness
import ArtdaqDatabase.StoredIds
import ArtdaqDatabase.TidyStores

/-!
# Assigning and removing a configuration

The file-system calls edit the selected document, write it back and answer with the
composition of the configuration.  Effect and answer are decided apart: the edit is
refused in silence by a frozen document, and the composition cannot be listed where no
document carries the configuration or one that does has no entity.
-/

namespace ArtdaqDatabase

open OrderedTable InPlaceUpdate InvertedIndex SortedUnique

/-! ## The write -/

section Write

variable {store : Store} {name oid : String} {document : Object}
  {options : ManageDocumentOperation} {edit : ConfigurationEdit}

/-- The document after the edit. -/
def reassigned (clock : Clock) (edit : ConfigurationEdit) (options : ManageDocumentOperation)
    (document : Object) : Object :=
  builderEdit (clock 1) (edit.operation options) document

/-- The update of the file that the edit writes. -/
def updatePayload (oid : String) (updated : Object) : Value :=
  .object [("filter", toId oid), ("document", .object updated)]

theorem writeRequest_update
    {updated : Object} (hown : Placed name oid updated) (env : Environment) :
    ∃ request, writeRequest env (updatePayload oid updated) = .ok request ∧
      request.collection = name ∧ request.oid = oid ∧ request.isNew = false ∧
      request.document = updated :=
  writeRequest_own hown (findChildDocument_eq_ok.2 ⟨_, _, rfl, rfl, rfl⟩) (writeFilter_of_lookup rfl)
    env

section Document

variable (hplaced : Placed name oid document) (hindexable : Indexable document) (clock : Clock)
include hplaced hindexable

theorem reassigned_spec :
    Reassigned edit options.configuration.text document
      (reassigned clock edit options document) :=
  reassigned_builderEdit hplaced.accepted hindexable (clock 1) edit rfl

theorem placed_reassigned : Placed name oid (reassigned clock edit options document) := by
  have hspec : Reassigned edit options.configuration.text document
      (reassigned clock edit options document) := reassigned_spec hplaced hindexable clock
  refine ⟨hspec.accepted, ?_, ?_, hplaced.oid_valid⟩
  · rw [hspec.lookup_eq "_id" (by decide), hplaced.id]
  · rw [hspec.lookup_eq "collection" (by decide), hplaced.collection]

theorem documentEntities_reassigned :
    documentEntities (reassigned clock edit options document) = documentEntities document := by
  have hspec : Reassigned edit options.configuration.text document
      (reassigned clock edit options document) := reassigned_spec hplaced hindexable clock
  simp only [documentEntities, sectionEntries, hspec.lookup_eq "entities" (by decide)]

theorem configurationPayload_run
    (hselect : selectDocument options store = .ok document)
    (hoperation : options.operation = edit.name) :
    configurationPayload clock edit options store =
      .ok (updatePayload oid (reassigned clock edit options document)) := by
  have hown : Placed name oid (reassigned clock edit options document) :=
    placed_reassigned hplaced hindexable clock
  have hid : getObjectID (reassigned clock edit options document) = .ok (toId oid) := by
    rw [getObjectID, valueAt_eq_ok.2 hown.id]
    rfl
  have hconfirm : confirm (decide (options.operation = edit.name)) = .ok () := by
    simp [confirm, hoperation]
  rw [configurationPayload, hconfirm]
  simp only [bind, Except.bind, hselect, hplaced.accepted (clock 0)]
  change (getObjectID (reassigned clock edit options document) >>= _) = _
  rw [hid]
  rfl

/-- The selected document is replaced at its own place. -/
theorem rewriteConfiguration_run
    (hselect : selectDocument options store = .ok document)
    (hoperation : options.operation = edit.name) :
    ∃ request, request.collection = name ∧ request.oid = oid ∧ request.isNew = false ∧
      request.document = reassigned clock edit options document ∧
      rewriteConfiguration clock edit options store =
        .ok (toId oid) (set name ((collectionAt name store).replaced request) store) := by
  have hown : Placed name oid (reassigned clock edit options document) :=
    placed_reassigned hplaced hindexable clock
  have hpayload := configurationPayload_run hplaced hindexable clock hselect hoperation
  obtain ⟨request, hrequest, hcollection, hoid, hnew, hdocument⟩ :=
    writeRequest_update hown (clock 2)
  subst hcollection hoid
  have hcheck : checkInsert request (collectionAt request.collection store) = .ok () := by
    simp [checkInsert, hnew]
  refine ⟨request, rfl, rfl, hnew, hdocument, ?_⟩
  rw [rewriteConfiguration, bind_run (fetch_ok hpayload)]
  exact writeDocument_run hrequest hcheck

end Document

end Write

/-! ## The answer -/

/-- The document carries a configuration that the search accepts. -/
def CarriesAccepted (pattern : String) (document : Object) : Prop :=
  ∃ value ∈ documentConfigurations document, acceptValue pattern value

/-- Some document carries an accepted configuration, and each that does has an entity. -/
structure Answerable (pattern : String) (store : Store) : Prop where
  carried : ∃ name oid document, documentAt store name oid = some document ∧
    CarriesAccepted pattern document
  entities : ∀ name oid document, documentAt store name oid = some document →
    CarriesAccepted pattern document → documentEntities document ≠ []

section Answer

variable {c : Collection} (hc : ListedCollection c) (pattern : String)
include hc

theorem ListedCollection.listed_configurations (value id : String) :
    Listed c.index.configurations value id ↔ Carries documentConfigurations c value id :=
  listed_iff_carries (hc.wellFormed.keys .configurations) hc.configurations value id

theorem ListedCollection.listed_entities (value id : String) :
    Listed c.index.entities value id ↔ Carries documentEntities c value id :=
  listed_iff_carries (hc.wellFormed.keys .entities) hc.entities value id

/-- The queries of one collection can be listed exactly if each of its documents with an
accepted configuration has an entity; there are some if there is such a document. -/
theorem findAllGlobalConfigurations_returns_iff :
    (∃ pairs, findAllGlobalConfigurations c.index
        [("configurations.name", .string pattern)] = .ok pairs) ↔
      ∀ oid document, c.stored oid = some document → CarriesAccepted pattern document →
        documentEntities document ≠ [] := by
  have hleft : c.index.tableAt "entities.name" = .ok c.index.entities := rfl
  have hright : c.index.tableAt "configurations.name" = .ok c.index.configurations := rfl
  constructor
  · rintro ⟨pairs, hpairs⟩ oid document hstored ⟨value, hvalue, haccept⟩ hnone
    obtain ⟨-, -, hcovered⟩ := innerjoin_eq_ok hleft hright hpairs
    have hlisted : Listed c.index.configurations value oid :=
      (hc.listed_configurations value oid).2 ⟨document, hstored, hvalue⟩
    obtain ⟨entity, hentity⟩ := hcovered value oid haccept hlisted
    obtain ⟨document', hstored', hmem⟩ := (hc.listed_entities entity oid).1 hentity
    rw [hstored, Option.some.injEq] at hstored'
    rw [← hstored', hnone] at hmem
    cases hmem
  · intro hentities
    refine exists_innerjoin_eq_ok hleft hright fun value oid haccept hlisted => ?_
    obtain ⟨document, hstored, hvalue⟩ := (hc.listed_configurations value oid).1 hlisted
    obtain ⟨entity, hentity⟩ :=
      List.exists_mem_of_ne_nil _ (hentities oid document hstored ⟨value, hvalue, haccept⟩)
    exact ⟨entity, (hc.listed_entities entity oid).2 ⟨document, hstored, hentity⟩⟩

theorem findAllGlobalConfigurations_ne_nil_iff
    {pairs : List (String ×ₗ String)}
    (hpairs : findAllGlobalConfigurations c.index
      [("configurations.name", .string pattern)] = .ok pairs) :
    pairs ≠ [] ↔ ∃ oid document, c.stored oid = some document ∧
      CarriesAccepted pattern document := by
  have hleft : c.index.tableAt "entities.name" = .ok c.index.entities := rfl
  have hright : c.index.tableAt "configurations.name" = .ok c.index.configurations := rfl
  obtain ⟨-, hmem, hcovered⟩ := innerjoin_eq_ok hleft hright hpairs
  constructor
  · intro hne
    obtain ⟨pair, hpair⟩ := List.exists_mem_of_ne_nil _ hne
    obtain ⟨haccept, oid, hlisted, -⟩ := (hmem (ofLex pair).1 (ofLex pair).2).1 hpair
    obtain ⟨document, hstored, hvalue⟩ := (hc.listed_configurations _ oid).1 hlisted
    exact ⟨oid, document, hstored, _, hvalue, haccept⟩
  · rintro ⟨oid, document, hstored, value, hvalue, haccept⟩
    have hlisted : Listed c.index.configurations value oid :=
      (hc.listed_configurations value oid).2 ⟨document, hstored, hvalue⟩
    obtain ⟨entity, hentity⟩ := hcovered value oid haccept hlisted
    obtain ⟨last, hlast⟩ := exists_listedLast hentity
    exact List.ne_nil_of_mem ((hmem value last).2 ⟨haccept, oid, hlisted, hlast⟩)

/-- Dropping the entities that were seen throws nothing and leaves something. -/
theorem compositionOf_eq
    {pairs : List (String ×ₗ String)}
    (hpairs : findAllGlobalConfigurations c.index
      [("configurations.name", .string pattern)] = .ok pairs) (name : String) :
    ∃ queries, compositionOf [("configurations.name", .string pattern)] (name, c) = .ok queries ∧
      (queries = [] ↔ pairs = []) := by
  have hleft : c.index.tableAt "entities.name" = .ok c.index.entities := rfl
  have hright : c.index.tableAt "configurations.name" = .ok c.index.configurations := rfl
  obtain ⟨-, hmem, -⟩ := innerjoin_eq_ok hleft hright hpairs
  have hnamed : ∀ pair ∈ pairs, (ofLex pair).2 ≠ "" := by
    intro pair hpair hempty
    obtain ⟨-, oid, -, hlast⟩ := (hmem (ofLex pair).1 (ofLex pair).2).1 hpair
    obtain ⟨ids, hentry, -⟩ := hlast.listed
    rw [hempty] at hentry
    exact hc.wellFormed.values .entities (List.mem_map.2 ⟨_, hentry, rfl⟩)
  obtain ⟨kept, hkept, hsub, -, -, hcover⟩ := newEntities_run [] hnamed
  refine ⟨kept.map fun pair => loadQuery name (memberFilter (ofLex pair).1 (ofLex pair).2), ?_, ?_⟩
  · simp only [compositionOf, hpairs, hkept, bind, Except.bind]
  · rw [List.map_eq_nil_iff]
    constructor
    · intro hnil
      by_contra hne
      obtain ⟨pair, hpair⟩ := List.exists_mem_of_ne_nil _ hne
      rcases hcover pair hpair with hseen | hkeptPair
      · cases hseen
      · simp [hnil] at hkeptPair
    · rintro rfl
      exact List.subset_nil.1 hsub

end Answer

theorem documentAt_of_mem
    {store : Store} (hnames : (store.map Prod.fst).Nodup) {name : String} {c : Collection}
    (hmem : (name, c) ∈ store) (oid : String) :
    documentAt store name oid = c.stored oid := by
  rw [documentAt, collectionAt, lookup_of_mem hnames hmem]
  rfl

theorem exists_mem_of_documentAt
    {store : Store} {name oid : String} {document : Object}
    (hdocument : documentAt store name oid = some document) :
    ∃ c, (name, c) ∈ store ∧ c.stored oid = some document := by
  unfold documentAt collectionAt at hdocument
  cases hlookup : lookup name store with
  | none => simp [hlookup] at hdocument
  | some c =>
      rw [hlookup] at hdocument
      exact ⟨c, mem_of_lookup hlookup, hdocument⟩

section Store

variable {store : Store} (hstore : ListedStore store) (pattern : String)
include hstore

/-- The lists of the collections are there exactly if every document with an accepted
configuration has an entity. -/
theorem compositionOf_returns_iff :
    (∀ entry ∈ store, ∃ queries,
        compositionOf [("configurations.name", .string pattern)] entry = .ok queries) ↔
      ∀ name oid document, documentAt store name oid = some document →
        CarriesAccepted pattern document → documentEntities document ≠ [] := by
  constructor
  · intro hlists name oid document hdocument
    obtain ⟨c, hmem, hstored⟩ := exists_mem_of_documentAt hdocument
    obtain ⟨queries, hqueries⟩ := hlists (name, c) hmem
    simp only [compositionOf, bind_eq_ok] at hqueries
    obtain ⟨pairs, hpairs, -⟩ := hqueries
    exact (findAllGlobalConfigurations_returns_iff (hstore.listed name c hmem) pattern).1
      ⟨pairs, hpairs⟩ oid document hstored
  · rintro hentities ⟨name, c⟩ hmem
    have hc := hstore.listed name c hmem
    obtain ⟨pairs, hpairs⟩ := (findAllGlobalConfigurations_returns_iff hc pattern).2
      fun oid document hstored => hentities name oid document
        (by rw [documentAt_of_mem hstore.names hmem, hstored])
    obtain ⟨queries, hqueries, -⟩ := compositionOf_eq hc pattern hpairs name
    exact ⟨queries, hqueries⟩

/-- A list of a collection has a query exactly if one of its documents has an accepted
configuration. -/
theorem compositionOf_ne_nil_iff
    {name : String} {c : Collection} (hmem : (name, c) ∈ store) {queries : List Value}
    (hqueries : compositionOf [("configurations.name", .string pattern)] (name, c) = .ok queries) :
    queries ≠ [] ↔ ∃ oid document, documentAt store name oid = some document ∧
      CarriesAccepted pattern document := by
  have hc := hstore.listed name c hmem
  have hrun := hqueries
  simp only [compositionOf, bind_eq_ok] at hrun
  obtain ⟨pairs, hpairs, -⟩ := hrun
  obtain ⟨queries', hqueries', hnil⟩ := compositionOf_eq hc pattern hpairs name
  rw [hqueries, Except.ok.injEq] at hqueries'
  subst hqueries'
  rw [ne_eq, hnil, ← ne_eq, findAllGlobalConfigurations_ne_nil_iff hc pattern hpairs]
  simp only [documentAt_of_mem hstore.names hmem]

/-- The composition of a configuration can be listed exactly if some document carries it
and each that does has an entity. -/
theorem compositionQueries_returns_iff :
    (∃ queries, compositionQueries [("configurations.name", .string pattern)] store =
      .ok queries) ↔ Answerable pattern store := by
  constructor
  · rintro ⟨queries, hqueries⟩
    simp only [compositionQueries, configurationComposition, bind_eq_ok] at hqueries
    obtain ⟨_, ⟨lists, hlists, hflatten⟩, hnonempty⟩ := hqueries
    rw [Except.ok.injEq] at hflatten
    subst hflatten
    refine ⟨?_, (compositionOf_returns_iff hstore pattern).1 (forall_ok_of_mapM hlists)⟩
    obtain ⟨list, hlist, hquery⟩ : ∃ list ∈ lists, list ≠ [] := by
      by_contra hall
      push Not at hall
      simp [List.flatten_eq_nil_iff.2 hall] at hnonempty
    obtain ⟨⟨name, c⟩, hmem, hrun⟩ := (mapM_eq_ok_mem hlists list).1 hlist
    obtain ⟨oid, document, hcarried⟩ :=
      (compositionOf_ne_nil_iff hstore pattern hmem hrun).1 hquery
    exact ⟨name, oid, document, hcarried⟩
  · rintro ⟨⟨name, oid, document, hdocument, hcarries⟩, hentities⟩
    obtain ⟨lists, hlists⟩ :=
      exists_mapM_eq_ok ((compositionOf_returns_iff hstore pattern).2 hentities)
    obtain ⟨c, hmem, hstored⟩ := exists_mem_of_documentAt hdocument
    obtain ⟨list, hlist⟩ := forall_ok_of_mapM hlists (name, c) hmem
    have hquery : list ≠ [] :=
      (compositionOf_ne_nil_iff hstore pattern hmem hlist).2 ⟨oid, document, hdocument, hcarries⟩
    have hne : lists.flatten ≠ [] := fun hnil =>
      hquery (List.flatten_eq_nil_iff.1 hnil list
        ((mapM_eq_ok_mem hlists list).2 ⟨(name, c), hmem, hlist⟩))
    refine ⟨lists.flatten, ?_⟩
    simp only [compositionQueries, configurationComposition, hlists, hne, bind, Except.bind,
      if_false]

end Store

/-! ## The call -/

section Call

variable {store : Store} {name oid : String} {document : Object}
  {options : ManageDocumentOperation} {edit : ConfigurationEdit}

/-- What a call leaves, and when it returns. -/
theorem editConfiguration_spec
    (hstore : ListedStore store) (hstored : documentAt store name oid = some document)
    (hplaced : Placed name oid document) (hindexable : Indexable document) (clock : Clock)
    (hselect : selectDocument options store = .ok document)
    (hoperation : options.operation = edit.name) :
    ListedStore (after (editConfiguration clock edit options) store) ∧
      (∀ name' oid', documentAt (after (editConfiguration clock edit options) store) name' oid' =
        if name' = name ∧ oid' = oid then some (reassigned clock edit options document)
        else documentAt store name' oid') ∧
      ((∃ queries store', editConfiguration clock edit options store = .ok queries store') ↔
        Answerable options.configuration.text
          (after (editConfiguration clock edit options) store)) := by
  obtain ⟨request, rfl, rfl, hnew, hdocument, hrun⟩ :=
    rewriteConfiguration_run hplaced hindexable clock hselect hoperation
  have hlisted : ListedCollection ((collectionAt request.collection store).replaced request) := by
    refine listedCollection_replaced (hstore.collectionAt _) hstored hnew hindexable ?_ ?_
    · rw [hdocument]
      exact (reassigned_spec hplaced hindexable clock).indexable
    · rw [hdocument]
      exact documentEntities_reassigned hplaced hindexable clock
  have hcall : editConfiguration clock edit options store =
      fetch (compositionQueries [("configurations.name", .string options.configuration.text)])
        (set request.collection ((collectionAt request.collection store).replaced request)
          store) := by
    rw [editConfiguration, bind_run hrun]
  have hafter : after (editConfiguration clock edit options) store =
      set request.collection ((collectionAt request.collection store).replaced request) store := by
    rw [after, hcall]
    exact after_lift _ _
  have hstore' : ListedStore (set request.collection _ store) := hstore.set hlisted
  rw [hafter, hcall]
  refine ⟨hstore', fun name' oid' => ?_, ?_⟩
  · rw [documentAt, collectionAt_set]
    by_cases hname : name' = request.collection
    · rw [if_pos hname, stored_replaced, Function.update_apply, hdocument, hname]
      simp [documentAt]
    · rw [if_neg hname, if_neg fun h => hname h.1]
      rfl
  · rw [← compositionQueries_returns_iff hstore']
    constructor
    · rintro ⟨queries, store', hreturn⟩
      exact ⟨queries, (lift_run_iff.1 hreturn).1⟩
    · rintro ⟨queries, hqueries⟩
      exact ⟨queries, _, fetch_ok hqueries⟩

end Call

/-! ## The answer after an edit -/

/-- Each document with an accepted configuration has an entity. -/
def EntitiesCarried (pattern : String) (store : Store) : Prop :=
  ∀ name oid document, documentAt store name oid = some document →
    CarriesAccepted pattern document → documentEntities document ≠ []

/-- The document carries an accepted configuration, where at the given place the one of
the search itself does not count. -/
def CarriesBeside (pattern name oid name' oid' : String) (document : Object) : Prop :=
  ∃ value ∈ documentConfigurations document, acceptValue pattern value ∧
    (name' = name ∧ oid' = oid → value ≠ pattern)

/-- The composition can be listed without the configuration at the given place. -/
def AnswerableWithout (pattern : String) (store : Store) (name oid : String) : Prop :=
  (∃ name' oid' document, documentAt store name' oid' = some document ∧
      CarriesBeside pattern name oid name' oid' document) ∧
    ∀ name' oid' document, documentAt store name' oid' = some document →
      CarriesBeside pattern name oid name' oid' document → documentEntities document ≠ []

theorem acceptValue_self (pattern : String) : acceptValue pattern pattern = true := by
  unfold acceptValue
  split
  · exact List.isPrefixOf_iff_prefix.2 (List.dropLast_prefix _)
  · simp

section After

variable {store store' : Store} {name oid : String} {document document' : Object}
  {configuration : String} (hstored : documentAt store name oid = some document)
  (hdocuments : ∀ name' oid', documentAt store' name' oid' =
    if name' = name ∧ oid' = oid then some document' else documentAt store name' oid')
  (hentities : documentEntities document' = documentEntities document)

include hstored hdocuments in
/-- Some document is as asked in one store exactly if some document is in the other. -/
theorem exists_document_iff
    {p : Object → Prop} {q : String → String → Object → Prop}
    (hown : p document' ↔ q name oid document)
    (hrest : ∀ name' oid' other, ¬ (name' = name ∧ oid' = oid) →
      (p other ↔ q name' oid' other)) :
    (∃ name' oid' other, documentAt store' name' oid' = some other ∧ p other) ↔
      ∃ name' oid' other, documentAt store name' oid' = some other ∧ q name' oid' other := by
  refine exists_congr fun name' => exists_congr fun oid' => ?_
  rw [hdocuments]
  by_cases hsame : name' = name ∧ oid' = oid
  · simp [hsame, hstored, hown]
  · simp [hsame, hrest name' oid' _ hsame]

include hstored hdocuments in
theorem answerable_of_same (hsame : document' = document) :
    Answerable configuration store' ↔ Answerable configuration store := by
  have hall : ∀ name' oid', documentAt store' name' oid' = documentAt store name' oid' := by
    intro name' oid'
    rw [hdocuments]
    split
    · rename_i hplace
      rw [hplace.1, hplace.2, hstored, hsame]
    · rfl
  constructor
  · rintro ⟨hcarried, hothers⟩
    simp only [hall] at hcarried hothers
    exact ⟨hcarried, hothers⟩
  · rintro ⟨hcarried, hothers⟩
    refine ⟨?_, ?_⟩
    · simpa only [hall] using hcarried
    · simpa only [hall] using hothers

include hstored hdocuments hentities


/-- Once the document carries the configuration, it and all others need an entity. -/
theorem answerable_of_carried
    (hcarries : configuration ∈ documentConfigurations document') :
    Answerable configuration store' ↔
      documentEntities document ≠ [] ∧ EntitiesCarried configuration store := by
  have haccepted : CarriesAccepted configuration document' :=
    ⟨configuration, hcarries, acceptValue_self configuration⟩
  have hplace : documentAt store' name oid = some document' := by simp [hdocuments]
  constructor
  · rintro ⟨-, hall⟩
    have hown : documentEntities document ≠ [] := hentities ▸ hall name oid document' hplace haccepted
    refine ⟨hown, fun name' oid' other hother hcarried => ?_⟩
    by_cases hsame : name' = name ∧ oid' = oid
    · rw [hsame.1, hsame.2, hstored, Option.some.injEq] at hother
      rwa [← hother]
    · exact hall name' oid' other (by rw [hdocuments, if_neg hsame, hother]) hcarried
  · rintro ⟨hown, hall⟩
    refine ⟨⟨name, oid, document', hplace, haccepted⟩, fun name' oid' other hother hcarried => ?_⟩
    rw [hdocuments] at hother
    split at hother
    · rw [← Option.some.inj hother, hentities]
      exact hown
    · exact hall name' oid' other hother hcarried

/-- Once the document no longer carries the configuration, it counts without it. -/
theorem answerable_of_removed
    (hcarries : configuration ∉ documentConfigurations document')
    (hothers : ∀ x, x ≠ configuration →
      (x ∈ documentConfigurations document' ↔ x ∈ documentConfigurations document)) :
    Answerable configuration store' ↔ AnswerableWithout configuration store name oid := by
  have hbeside : CarriesAccepted configuration document' ↔
      CarriesBeside configuration name oid name oid document := by
    refine exists_congr fun value => ?_
    by_cases hvalue : value = configuration
    · simp [hvalue, hcarries]
    · simp [hothers value hvalue, hvalue]
  have helsewhere : ∀ (name' oid' : String) (other : Object), ¬ (name' = name ∧ oid' = oid) →
      (CarriesAccepted configuration other ↔
        CarriesBeside configuration name oid name' oid' other) := by
    intro name' oid' other hne
    refine exists_congr fun value => and_congr_right fun _ => ?_
    exact ⟨fun h => ⟨h, fun hsame => absurd hsame hne⟩, fun h => h.1⟩
  have hcarried := exists_document_iff hstored hdocuments hbeside helsewhere
  have hbare := exists_document_iff hstored hdocuments
    (p := fun other => CarriesAccepted configuration other ∧ documentEntities other = [])
    (q := fun name' oid' other => CarriesBeside configuration name oid name' oid' other ∧
      documentEntities other = [])
    (by rw [hbeside, hentities]) fun name' oid' other hne => by rw [helsewhere name' oid' other hne]
  constructor
  · rintro ⟨hsome, hall⟩
    refine ⟨hcarried.1 hsome, fun name' oid' other hother hbeside hnone => ?_⟩
    obtain ⟨name'', oid'', bare, hbare, hcarries, hempty⟩ :=
      hbare.2 ⟨name', oid', other, hother, hbeside, hnone⟩
    exact hall name'' oid'' bare hbare hcarries hempty
  · rintro ⟨hsome, hall⟩
    refine ⟨hcarried.2 hsome, fun name' oid' other hother hcarries hnone => ?_⟩
    obtain ⟨name'', oid'', bare, hbare, hbeside, hempty⟩ :=
      hbare.1 ⟨name', oid', other, hother, hcarries, hnone⟩
    exact hall name'' oid'' bare hbare hbeside hempty

end After

/-! ## The law of the calls -/

/-- The file carries the configuration. -/
def InFile (store : Store) (name oid configuration : String) : Prop :=
  ∃ document, documentAt store name oid = some document ∧
    configuration ∈ documentConfigurations document

/-- The index lists the id under the configuration. -/
def InIndex (store : Store) (name oid configuration : String) : Prop :=
  oid ∈ posting configuration (collectionAt name store).index.configurations

/-- The configuration is there, or is not there, in the file and in the index. -/
def Effected (store : Store) (name oid configuration : String) : ConfigurationEdit → Prop
  | .assign => InFile store name oid configuration ∧ InIndex store name oid configuration
  | .remove => ¬ InFile store name oid configuration ∧ ¬ InIndex store name oid configuration

/-- A call returns exactly if the selected document is edited in the file and in the
index; it changes no other document; and a removal undoes an assignment. -/
structure EditsFaithfully (clock : Clock) (edit : ConfigurationEdit)
    (options : ManageDocumentOperation) (store : Store) (name oid : String) (document : Object) :
    Prop where
  returns_iff : (∃ queries store', editConfiguration clock edit options store = .ok queries store') ↔
    Effected (after (editConfiguration clock edit options) store) name oid
      options.configuration.text edit
  others : ∀ name' oid', ¬ (name' = name ∧ oid' = oid) →
    documentAt (after (editConfiguration clock edit options) store) name' oid' =
      documentAt store name' oid'
  restores : edit = .assign →
    options.configuration.text ∉ documentConfigurations document →
    ∀ (clock' : Clock) (options' : ManageDocumentOperation) (document' : Object),
      options'.operation = "rmconfig" → options'.configuration = options.configuration →
      documentAt (after (editConfiguration clock edit options) store) name oid = some document' →
      selectDocument options' (after (editConfiguration clock edit options) store) = .ok document' →
      ∃ restored, documentAt (after (editConfiguration clock' .remove options')
          (after (editConfiguration clock edit options) store)) name oid = some restored ∧
        lookup "configurations" restored = lookup "configurations" document

/-- When the answer of a call fits its effect: the edit takes effect, and the composition
can be listed afterwards; or it takes none, and the composition cannot. -/
def AnswersEffect (edit : ConfigurationEdit) (configuration : String) (store : Store)
    (name oid : String) (document : Object) : Prop :=
  match edit with
  | .assign =>
      if Writable document ∨ configuration ∈ documentConfigurations document then
        documentEntities document ≠ [] ∧ EntitiesCarried configuration store
      else ¬ Answerable configuration store
  | .remove =>
      if Writable document ∨ configuration ∉ documentConfigurations document then
        AnswerableWithout configuration store name oid
      else ¬ Answerable configuration store

theorem inIndex_iff {store : Store} (hstore : ListedStore store)
    (name oid configuration : String) :
    InIndex store name oid configuration ↔ InFile store name oid configuration := by
  rw [InIndex, ← mem_entries, (hstore.collectionAt name).configurations]
  rfl

section Law

variable {store : Store} {name oid : String} {document : Object}
  {options : ManageDocumentOperation} {edit : ConfigurationEdit}

/-- A name that is added at the end is all that a removal of it takes off. -/
theorem removeNamed_addNamed
    {entries : List Value} (hnamed : EntriesNamed entries) {configuration : String}
    (hconfiguration : configuration ≠ "") (hnew : configuration ∉ namesOf entries)
    (env env' : Environment) :
    removeNamed (stamped env' configuration) (addNamed (stamped env configuration) entries) =
      entries := by
  have hadd : addNamed (stamped env configuration) entries =
      entries ++ [stamped env configuration] := by
    rw [addNamed, containsName_of_named env configuration hnamed]
    simp [hnew]
  have hall : EntriesNamed (entries ++ [stamped env configuration]) := by
    intro entry hentry
    rcases List.mem_append.1 hentry with hold | hlast
    · exact hnamed entry hold
    · rw [List.mem_singleton.1 hlast]
      exact ⟨configuration, rfl, hconfiguration⟩
  have hkept : entries.filter (fun entry => (nameOf entry).toOption ≠ some configuration) =
      entries := by
    rw [List.filter_eq_self]
    intro entry hentry
    obtain ⟨name, hname, -⟩ := hnamed entry hentry
    have hne : name ≠ configuration := by
      rintro rfl
      exact hnew (mem_namesOf.2 ⟨entry, hentry, hname⟩)
    simpa [hname, Except.toOption] using hne
  rw [hadd, removeNamed_of_named env' configuration hall]
  simp only [List.filter_append, hkept]
  simp [Except.toOption]

/-- An assigned configuration is the last of the list, and a removal takes it off. -/
theorem lookup_configurations_restored
    (hplaced : Placed name oid document) (hindexable : Indexable document) (clock clock' : Clock)
    {options' : ManageDocumentOperation} (hsame : options'.configuration = options.configuration)
    (hnew : options.configuration.text ∉ documentConfigurations document) :
    lookup "configurations"
        (reassigned clock' .remove options' (reassigned clock .assign options document)) =
      lookup "configurations" document := by
  by_cases hwritable : Writable document
  · obtain ⟨sections⟩ := hindexable
    have hadd := addConfiguration_edit (clock 1) hplaced.accepted hwritable
      options.configuration.text
    have hremove := removeConfiguration_edit (clock' 1) hadd.kept.accepted
      (hadd.kept.writable hwritable) options.configuration.text
    have hnames : documentConfigurations document = namesOf sections.configurations := by
      rw [documentConfigurations, sectionEntries, sections.configurations_lookup]
    rw [hnames] at hnew
    have hlookup := hremove.entries_eq _ (hadd.entries_eq _ sections.configurations_lookup)
    rw [removeNamed_addNamed sections.configurations_assigned.named options.configuration.text_ne
      hnew] at hlookup
    simp only [reassigned, ConfigurationEdit.operation, hsame]
    rw [hlookup, sections.configurations_lookup]
  · have hfirst : reassigned clock .assign options document = document :=
      builderEdit_of_not_writable hwritable rfl (clock 1)
    have hsecond : reassigned clock' .remove options' document = document :=
      builderEdit_of_not_writable hwritable rfl (clock' 1)
    rw [hfirst, hsecond]

/-- The exact condition under which a call answers what it did. -/
theorem editsFaithfully_iff
    (hstore : CoherentStore store) (hstored : documentAt store name oid = some document)
    (hplaced : Placed name oid document) (hindexable : Indexable document) (clock : Clock)
    (hselect : selectDocument options store = .ok document)
    (hoperation : options.operation = edit.name) :
    EditsFaithfully clock edit options store name oid document ↔
      AnswersEffect edit options.configuration.text store name oid document := by
  obtain ⟨hlisted, hdocuments, hreturns⟩ :=
    editConfiguration_spec hstore.listed hstored hplaced hindexable clock hselect hoperation
  have hspec : Reassigned edit options.configuration.text document
      (reassigned clock edit options document) := reassigned_spec hplaced hindexable clock
  have hentities : documentEntities (reassigned clock edit options document) =
      documentEntities document := documentEntities_reassigned hplaced hindexable clock
  have hframe : ∀ name' oid', ¬ (name' = name ∧ oid' = oid) →
      documentAt (after (editConfiguration clock edit options) store) name' oid' =
        documentAt store name' oid' := by
    intro name' oid' hne
    rw [hdocuments, if_neg hne]
  have hplace : documentAt (after (editConfiguration clock edit options) store) name oid =
      some (reassigned clock edit options document) := by
    simp [hdocuments]
  have hfile : InFile (after (editConfiguration clock edit options) store) name oid
      options.configuration.text ↔
        options.configuration.text ∈
          documentConfigurations (reassigned clock edit options document) := by
    simp [InFile, hplace]
  have hlaw : EditsFaithfully clock edit options store name oid document ↔
      (Answerable options.configuration.text
          (after (editConfiguration clock edit options) store) ↔
        Effected (after (editConfiguration clock edit options) store) name oid
          options.configuration.text edit) := by
    rw [← hreturns]
    refine ⟨fun h => h.returns_iff, fun h => ⟨h, hframe, ?_⟩⟩
    rintro rfl hnew clock' options' document' hoperation' hsame hdocument' hselect'
    rw [hplace, Option.some.injEq] at hdocument'
    subst hdocument'
    have hown : Placed name oid (reassigned clock .assign options document) :=
      placed_reassigned hplaced hindexable clock
    have hname : options'.operation = ConfigurationEdit.remove.name := hoperation'
    obtain ⟨-, hdocuments', -⟩ := editConfiguration_spec hlisted hplace hown hspec.indexable clock'
      hselect' hname
    refine ⟨reassigned clock' .remove options' (reassigned clock .assign options document), ?_,
      lookup_configurations_restored hplaced hindexable clock clock' hsame hnew⟩
    simp [hdocuments']
  have hindex := inIndex_iff hlisted name oid options.configuration.text
  have hsame : ¬ Writable document → reassigned clock edit options document = document := by
    intro hfrozen
    apply builderEdit_of_not_writable hfrozen
    cases edit <;> rfl
  rw [hlaw]
  cases edit with
  | assign =>
      simp only [Effected, hindex, hfile, and_self, AnswersEffect]
      by_cases htakes : Writable document ∨
          options.configuration.text ∈ documentConfigurations document
      · have hcarries : options.configuration.text ∈
            documentConfigurations (reassigned clock .assign options document) := by
          rw [hspec.carries_iff]
          split
          · rfl
          · exact htakes.resolve_left ‹_›
        rw [if_pos htakes, iff_true_right hcarries]
        exact answerable_of_carried hstored hdocuments hentities hcarries
      · rw [not_or] at htakes
        have hdocument := hsame htakes.1
        rw [if_neg (not_or.2 htakes), hdocument, iff_false_right htakes.2,
          answerable_of_same hstored hdocuments hdocument]
  | remove =>
      simp only [Effected, hindex, hfile, and_self, AnswersEffect]
      by_cases htakes : Writable document ∨
          options.configuration.text ∉ documentConfigurations document
      · have hcarries : options.configuration.text ∉
            documentConfigurations (reassigned clock .remove options document) := by
          rw [hspec.carries_iff]
          split
          · decide
          · exact htakes.resolve_left ‹_›
        rw [if_pos htakes, iff_true_right hcarries]
        exact answerable_of_removed hstored hdocuments hentities hcarries hspec.others
      · rw [not_or, not_not] at htakes
        have hdocument := hsame htakes.1
        rw [if_neg (not_or.2 ⟨htakes.1, not_not.2 htakes.2⟩), hdocument,
          iff_false_right (not_not.2 htakes.2), answerable_of_same hstored hdocuments hdocument]

end Law

/-! ## The last document of a configuration -/

/-- Options for one configuration of the example document. -/
def configurationOptions (operation : String) : ManageDocumentOperation :=
  { operation := operation
    format := .db
    collection := ⟨"run", run_ne⟩
    version := ⟨"v1", v1_ne⟩
    entity := ⟨"e1", by decide⟩
    configuration := ⟨"global", by decide⟩ }

/-- A store with one inserted document. -/
theorem coherentStore_insert
    {oid : String} {document : Object} (hindexable : Indexable document) (hoid : oid ≠ "") :
    CoherentStore [("run", Collection.empty.replaced (insertRequest oid document hoid))] where
  names := by simp
  named := by simp
  coherent name c hmem := by
    rw [List.mem_singleton, Prod.mk.injEq] at hmem
    rw [hmem.2]
    exact coherentCollection_of_followable
      (followable_replaced followable_empty (fun _ => rfl) (followed_of_absent hindexable rfl))
      (wellFormed_replaced SearchIndex.wellFormed_empty _)

theorem documentAt_exampleStore :
    documentAt exampleStore "run" "cccccccccccccccccccccccc" = some exampleDocument := by
  decide +kernel

theorem exampleDocument_indexable : Indexable exampleDocument :=
  exampleRequest_indexable

theorem exampleDocument_placed : Placed "run" "cccccccccccccccccccccccc" exampleDocument := by
  have hfiled : FiledStore exampleStore := filedStore_of_reachable ⟨_, rfl⟩
  have hrecord : ovlDatabaseRecord exampleEnvironment exampleDocument = .ok exampleDocument := by
    decide +kernel
  have haccepted : Accepted exampleDocument :=
    ((hfiled _ _ _ documentAt_exampleStore).normal.overlay hrecord).2
  exact ⟨haccepted, by decide +kernel, by decide +kernel, by decide⟩

theorem exampleStore_coherent : CoherentStore exampleStore := by
  have hstore : exampleStore = [("run", Collection.empty.replaced
      (insertRequest "cccccccccccccccccccccccc" exampleDocument (by decide)))] := by
    decide +kernel
  rw [hstore]
  exact coherentStore_insert exampleDocument_indexable _

theorem editsFaithfully_iff_assign :
    EditsFaithfully exampleClock .assign (configurationOptions "addconfig") exampleStore "run"
      "cccccccccccccccccccccccc" exampleDocument := by
  have hselect : selectDocument (configurationOptions "addconfig") exampleStore =
      .ok exampleDocument := by
    decide +kernel
  have hwritable : Writable exampleDocument := by decide +kernel
  have hcarried : EntitiesCarried "global" exampleStore := by
    intro name oid document hdocument hcarries hnone
    obtain ⟨c, hmem, hstored⟩ := exists_mem_of_documentAt hdocument
    have hall : ∀ entry ∈ exampleStore, ∀ stored ∈ entry.2.documents,
        documentEntities stored.2 ≠ [] := by
      decide +kernel
    exact hall _ hmem _ (mem_of_lookup hstored) hnone
  have hanswers : AnswersEffect .assign "global" exampleStore "run" "cccccccccccccccccccccccc"
      exampleDocument := by
    simp only [AnswersEffect, hwritable, true_or, if_true]
    exact ⟨by decide +kernel, hcarried⟩
  exact (editsFaithfully_iff exampleStore_coherent documentAt_exampleStore exampleDocument_placed
    exampleDocument_indexable exampleClock hselect rfl).2 hanswers

/-- The example store after an assignment. -/
def assignedStore : Store :=
  after (editConfiguration exampleClock .assign (configurationOptions "addconfig")) exampleStore

def assignedDocument : Object :=
  reassigned exampleClock .assign (configurationOptions "addconfig") exampleDocument

theorem assignedDocument_indexable : Indexable assignedDocument :=
  (reassigned_spec exampleDocument_placed exampleDocument_indexable exampleClock).indexable

theorem documentAt_assignedStore :
    documentAt assignedStore "run" "cccccccccccccccccccccccc" = some assignedDocument := by
  decide +kernel

theorem assignedStore_coherent : CoherentStore assignedStore := by
  have hstore : assignedStore = [("run", Collection.empty.replaced
      (insertRequest "cccccccccccccccccccccccc" assignedDocument (by decide)))] := by
    decide +kernel
  rw [hstore]
  exact coherentStore_insert assignedDocument_indexable _

/-- The only document of a configuration loses it, and the call throws. -/
theorem removeConfiguration_throws_on_last :
    CoherentStore assignedStore ∧
      documentAt assignedStore "run" "cccccccccccccccccccccccc" = some assignedDocument ∧
      selectDocument (configurationOptions "rmconfig") assignedStore = .ok assignedDocument ∧
      documentConfigurations assignedDocument = ["global"] ∧
      Effected (after (editConfiguration exampleClock .remove (configurationOptions "rmconfig"))
        assignedStore) "run" "cccccccccccccccccccccccc" "global" .remove ∧
      ¬ EditsFaithfully exampleClock .remove (configurationOptions "rmconfig") assignedStore "run"
        "cccccccccccccccccccccccc" assignedDocument := by
  have hselect : selectDocument (configurationOptions "rmconfig") assignedStore =
      .ok assignedDocument := by
    decide +kernel
  have hplaced : Placed "run" "cccccccccccccccccccccccc" assignedDocument :=
    placed_reassigned exampleDocument_placed exampleDocument_indexable exampleClock
  have hremove : (configurationOptions "rmconfig").operation = ConfigurationEdit.remove.name := rfl
  obtain ⟨hlisted, -, hreturns⟩ := editConfiguration_spec assignedStore_coherent.listed
    documentAt_assignedStore hplaced assignedDocument_indexable exampleClock hselect hremove
  -- no document carries a configuration afterwards
  have hnone : ∀ name oid document, documentAt (after (editConfiguration exampleClock .remove
      (configurationOptions "rmconfig")) assignedStore) name oid = some document →
        documentConfigurations document = [] := by
    intro name oid document hdocument
    obtain ⟨c, hmem, hdocuments⟩ := exists_mem_of_documentAt hdocument
    have hall : ∀ entry ∈ after (editConfiguration exampleClock .remove
        (configurationOptions "rmconfig")) assignedStore, ∀ stored ∈ entry.2.documents,
          documentConfigurations stored.2 = [] := by
      decide +kernel
    exact hall _ hmem _ (mem_of_lookup hdocuments)
  have heffected : Effected (after (editConfiguration exampleClock .remove
      (configurationOptions "rmconfig")) assignedStore) "run" "cccccccccccccccccccccccc" "global"
        .remove := by
    have hfile : ¬ InFile (after (editConfiguration exampleClock .remove
        (configurationOptions "rmconfig")) assignedStore) "run" "cccccccccccccccccccccccc"
          "global" := by
      rintro ⟨document, hdocument, hcarries⟩
      simp [hnone _ _ _ hdocument] at hcarries
    exact ⟨hfile, fun hindex => hfile ((inIndex_iff hlisted _ _ _).1 hindex)⟩
  refine ⟨assignedStore_coherent, documentAt_assignedStore, hselect, by decide +kernel, heffected,
    fun hfaithful => ?_⟩
  obtain ⟨name, oid, document, hdocument, value, hvalue, -⟩ :=
    (hreturns.1 (hfaithful.returns_iff.2 heffected)).carried
  simp [hnone _ _ _ hdocument] at hvalue

end ArtdaqDatabase
