import ArtdaqDatabase.IndexTables
import ArtdaqDatabase.InnerJoin
import ArtdaqDatabase.ManageDocument

/-!
# Queries for the members of a composition

`configurationComposition` and `findVersions` answer with queries that the client
hands back to `readDocument`.  A query is the object that its text denotes.  The
first joins the entities of a configuration and asks once for each entity of a
collection; the second joins versions with entities or with configurations, and
with configurations it copies the entity of the filter into each query.
-/

namespace ArtdaqDatabase

open OrderedTable SortedUnique InvertedIndex

/-! ## The searches of the index -/

/-- `SearchIndex::findAllGlobalConfigurations` on the parsed search. -/
def findAllGlobalConfigurations (index : SearchIndex) (search : Object) :
    Except Failure (List (String ×ₗ String)) :=
  indexedFilteredInnerjoinOverOuid index "entities.name" "configurations.name"
    ((stringAt "configurations.name" search).toOption.getD "")

/-- `SearchIndex::findVersionsByGlobalConfigName` on the parsed search. -/
def findVersionsByGlobalConfigName (index : SearchIndex) (search : Object) :
    Except Failure (List (String ×ₗ String)) :=
  indexedFilteredInnerjoinOverOuid index "version" "configurations.name"
    ((stringAt "configurations.name" search).toOption.getD "")

/-- `SearchIndex::findVersionsByEntityName` on the parsed search. -/
def findVersionsByEntityName (index : SearchIndex) (search : Object) :
    Except Failure (List (String ×ₗ String)) :=
  indexedFilteredInnerjoinOverOuid index "version" "entities.name"
    ((stringAt "entities.name" search).toOption.getD "notprovided")

/-! ## The queries -/

/-- A query that loads documents of a collection. -/
def loadQuery (collection : String) (filter : Object) : Value :=
  .object
    [("collection", .string collection), ("dbprovider", .string "filesystem"),
      ("dataformat", .string "gui"), ("operation", .string "load"), ("filter", .object filter)]

/-- The pairs with an entity that was not seen in a pair before. -/
def newEntities : List String → List (String ×ₗ String) →
    Except Failure (List (String ×ₗ String))
  | _, [] => .ok []
  | seen, pair :: rest => do
      confirm ((ofLex pair).2 ≠ "")
      if (ofLex pair).2 ∈ seen then newEntities seen rest
      else
        let kept ← newEntities ((ofLex pair).2 :: seen) rest
        .ok (pair :: kept)

def memberFilter (configuration entity : String) : Object :=
  [("configurations.name", .string configuration), ("entities.name", .string entity)]

def versionFilter (version entity : String) : Object :=
  [("version", .string version), ("entities.name", .string entity)]

/-- The queries for one collection. -/
def compositionOf (search : Object) (entry : String × Collection) :
    Except Failure (List Value) := do
  let pairs ← findAllGlobalConfigurations entry.2.index search
  let kept ← newEntities [] pairs
  .ok (kept.map fun pair => loadQuery entry.1 (memberFilter (ofLex pair).1 (ofLex pair).2))

/-- `StorageProvider::configurationComposition` on the parsed search. -/
def configurationComposition (search : Object) (store : Store) : Except Failure (List Value) := do
  let queries ← store.mapM (compositionOf search)
  .ok queries.flatten

/-- `StorageProvider::findVersions`. -/
def findVersions (payload : Value) (store : Store) : Except Failure (List Value) := do
  let collectionName ← childText "collection" payload
  let filter ← findChildValue ["filter"] payload
  let index := (collectionAt collectionName store).index
  match filter with
  | .object search =>
      if count "configurations.name" search = 0 then
        let pairs ← findVersionsByEntityName index search
        .ok (pairs.map fun pair =>
          loadQuery collectionName (versionFilter (ofLex pair).2 (ofLex pair).1))
      else
        let entityName := (stringAt "entities.name" search).toOption.getD "notprovided"
        let pairs ← findVersionsByGlobalConfigName index search
        .ok (pairs.map fun pair =>
          loadQuery collectionName (versionFilter (ofLex pair).2 entityName))
  | _ => .ok []

/-! ## Coherent collections -/

/-- A collection whose well-formed index lists what its documents carry; every
document has a version. -/
structure CoherentCollection (c : Collection) : Prop where
  coherent : Coherent c
  wellFormed : c.index.WellFormed
  versioned : ∀ id document, c.stored id = some document → Versioned document

/-- A stored document carries the value. -/
def Carries (attr : Object → List String) (c : Collection) (value id : String) : Prop :=
  ∃ document, c.stored id = some document ∧ value ∈ attr document

/-- The pattern is a name. -/
def NoStar (name : String) : Prop :=
  name.toList.getLast? ≠ some '*'

instance (name : String) : Decidable (NoStar name) :=
  inferInstanceAs (Decidable (_ ≠ _))

theorem acceptValue_of_noStar {name : String} (hname : NoStar name) (value : String) :
    acceptValue name value = true ↔ value = name := by
  unfold NoStar at hname
  simp [acceptValue, if_neg hname]

theorem listed_iff_carries
    {c : Collection} {attr : Object → List String} {t : Postings}
    (hkeys : (t.map Prod.fst).Nodup) (ht : entries t = carriedBy (valuesOf attr) c.stored)
    (value id : String) :
    Listed t value id ↔ Carries attr c value id := by
  rw [listed_iff_mem_posting hkeys, ← mem_entries, ht]
  rfl

section Coherent

variable {c : Collection} (hc : CoherentCollection c)
include hc

theorem listed_configurations (value id : String) :
    Listed c.index.configurations value id ↔ Carries documentConfigurations c value id :=
  listed_iff_carries (hc.wellFormed.keys .configurations) hc.coherent.configurations value id

theorem listed_entities (value id : String) :
    Listed c.index.entities value id ↔ Carries documentEntities c value id :=
  listed_iff_carries (hc.wellFormed.keys .entities) hc.coherent.entities value id

theorem listed_version (value id : String) :
    Listed c.index.version value id ↔ Carries documentVersions c value id :=
  listed_iff_carries (hc.wellFormed.keys .version) hc.coherent.version value id

/-- A document has one version, so the last one listed is the one. -/
theorem listedLast_version {value id : String} :
    ListedLast c.index.version value id ↔ Carries documentVersions c value id := by
  constructor
  · exact fun h => (listed_version hc _ _).1 h.listed
  · intro h
    obtain ⟨w, hlast⟩ := exists_listedLast ((listed_version hc _ _).2 h)
    obtain ⟨document, hdocument, hvalue⟩ := h
    obtain ⟨document', hdocument', hw⟩ := (listed_version hc _ _).1 hlast.listed
    rw [hdocument, Option.some.injEq] at hdocument'
    subst hdocument'
    obtain ⟨version, hversion, -⟩ := hc.versioned id document hdocument
    have hone : documentVersions document = [version] := by
      simp [documentVersions, hversion]
    rw [hone, List.mem_singleton] at hvalue hw
    rwa [hvalue, ← hw]

theorem exists_version {id : String} {document : Object} (hstored : c.stored id = some document) :
    ∃ version, Carries documentVersions c version id := by
  obtain ⟨version, hversion, -⟩ := hc.versioned id document hstored
  exact ⟨version, document, hstored, by simp [documentVersions, hversion]⟩

/-! ## Versions -/

/-- The versions joined with a table whose lists are those of an attribute. -/
theorem innerjoin_versions
    {right pattern : String} {rightTable : Postings} {attr : Object → List String}
    (hright : c.index.tableAt right = .ok rightTable) (hpattern : NoStar pattern)
    (hlisted : ∀ value id, Listed rightTable value id ↔ Carries attr c value id) :
    ∃ pairs, indexedFilteredInnerjoinOverOuid c.index "version" right pattern = .ok pairs ∧
      pairs.SortedLT ∧
      ∀ r v, toLex (r, v) ∈ pairs ↔
        r = pattern ∧ ∃ id, Carries attr c pattern id ∧ Carries documentVersions c v id := by
  have hleft : c.index.tableAt "version" = .ok c.index.version := rfl
  have hcovered : ∀ r id, acceptValue pattern r → Listed rightTable r id →
      ∃ v, Listed c.index.version v id := by
    intro r id _ hr
    obtain ⟨document, hstored, -⟩ := (hlisted r id).1 hr
    obtain ⟨v, hv⟩ := exists_version hc hstored
    exact ⟨v, (listed_version hc _ _).2 hv⟩
  obtain ⟨pairs, hjoin⟩ := exists_innerjoin_eq_ok hleft hright hcovered
  obtain ⟨hsorted, hpairs, -⟩ := innerjoin_eq_ok hleft hright hjoin
  refine ⟨pairs, hjoin, hsorted, fun r v => ?_⟩
  rw [hpairs, acceptValue_of_noStar hpattern]
  refine and_congr_right fun hr => exists_congr fun id => ?_
  rw [hlisted, listedLast_version hc, hr]

end Coherent

/-- The second members of a sorted list of pairs with one first member. -/
theorem versions_nodup
    {pattern : String} {pairs : List (String ×ₗ String)} {p : String → Prop}
    (hsorted : pairs.SortedLT) (hpairs : ∀ r v, toLex (r, v) ∈ pairs ↔ r = pattern ∧ p v) :
    (pairs.map fun pair => (ofLex pair).2).Nodup ∧
      ∀ v, v ∈ (pairs.map fun pair => (ofLex pair).2) ↔ p v := by
  have hfirst : ∀ pair ∈ pairs, pair = toLex (pattern, (ofLex pair).2) := by
    intro pair hpair
    have hr := ((hpairs (ofLex pair).1 (ofLex pair).2).1 hpair).1
    rw [← hr]
    rfl
  constructor
  · refine List.Nodup.map_on (fun pair hpair other hother heq => ?_) hsorted.nodup
    rw [hfirst pair hpair, hfirst other hother, heq]
  · intro v
    rw [List.mem_map]
    constructor
    · rintro ⟨pair, hpair, rfl⟩
      exact ((hpairs (ofLex pair).1 (ofLex pair).2).1 hpair).2
    · exact fun hv => ⟨toLex (pattern, v), (hpairs pattern v).2 ⟨rfl, hv⟩, rfl⟩

/-- The answer has one query for each selected version. -/
def ListsVersions
    (payload : Value) (store : Store) (name entity : String) (selected : String → Prop) : Prop :=
  ∃ versions : List String,
    findVersions payload store =
        .ok (versions.map fun version => loadQuery name (versionFilter version entity)) ∧
      versions.Nodup ∧ ∀ version, version ∈ versions ↔ selected version

theorem versionQuery_injective (name entity : String) :
    Function.Injective fun version => loadQuery name (versionFilter version entity) := by
  intro v w h
  simpa [loadQuery, versionFilter] using h

section Versions

variable {payload : Value} {store : Store} {name entity : String} {search : Object}
  (hc : CoherentCollection (collectionAt name store))
  (hname : childText "collection" payload = .ok name)
  (hfilter : findChildValue ["filter"] payload = .ok (.object search))
include hc hname hfilter

theorem findVersions_entity
    (hentity : lookup "entities.name" search = some (.string entity)) (hstar : NoStar entity)
    (habsent : lookup "configurations.name" search = none) :
    ListsVersions payload store name entity fun version =>
      ∃ id, Carries documentEntities (collectionAt name store) entity id ∧
        Carries documentVersions (collectionAt name store) version id := by
  have hright : (collectionAt name store).index.tableAt "entities.name" =
      .ok (collectionAt name store).index.entities := rfl
  obtain ⟨pairs, hjoin, hsorted, hpairs⟩ :=
    innerjoin_versions hc hright hstar (listed_entities hc)
  obtain ⟨hnodup, hversions⟩ := versions_nodup hsorted hpairs
  refine ⟨_, ?_, hnodup, hversions⟩
  have hpattern : (stringAt "entities.name" search).toOption.getD "notprovided" = entity := by
    rw [stringAt_eq_ok.2 hentity]
    rfl
  have hcount : count "configurations.name" search = 0 := count_eq_zero_iff.2 habsent
  have hqueries : ∀ pair ∈ pairs, loadQuery name (versionFilter (ofLex pair).2 (ofLex pair).1) =
      loadQuery name (versionFilter (ofLex pair).2 entity) := by
    intro pair hpair
    rw [((hpairs (ofLex pair).1 (ofLex pair).2).1 hpair).1]
  simp only [findVersions, hname, hfilter, bind, Except.bind, if_pos hcount,
    findVersionsByEntityName, hpattern, hjoin, List.map_map, Function.comp_def]
  rw [List.map_congr_left hqueries]

/-- With a configuration the versions are those of its documents, whatever entity
the query names. -/
theorem findVersions_configuration
    (hentity : lookup "entities.name" search = some (.string entity))
    {configuration : String}
    (hconfiguration : lookup "configurations.name" search = some (.string configuration))
    (hstar : NoStar configuration) :
    ListsVersions payload store name entity fun version =>
      ∃ id, Carries documentConfigurations (collectionAt name store) configuration id ∧
        Carries documentVersions (collectionAt name store) version id := by
  have hright : (collectionAt name store).index.tableAt "configurations.name" =
      .ok (collectionAt name store).index.configurations := rfl
  obtain ⟨pairs, hjoin, hsorted, hpairs⟩ :=
    innerjoin_versions hc hright hstar (listed_configurations hc)
  obtain ⟨hnodup, hversions⟩ := versions_nodup hsorted hpairs
  refine ⟨_, ?_, hnodup, hversions⟩
  have hpattern :
      (stringAt "configurations.name" search).toOption.getD "" = configuration := by
    rw [stringAt_eq_ok.2 hconfiguration]
    rfl
  have hname' : (stringAt "entities.name" search).toOption.getD "notprovided" = entity := by
    rw [stringAt_eq_ok.2 hentity]
    rfl
  have hcount : count "configurations.name" search ≠ 0 := by
    rw [Ne, count_eq_zero_iff, hconfiguration]
    simp
  simp only [findVersions, hname, hfilter, bind, Except.bind, if_neg hcount,
    findVersionsByGlobalConfigName, hpattern, hname', hjoin, List.map_map, Function.comp_def]

end Versions

/-- An answer lists the versions of one selection only. -/
theorem ListsVersions.unique
    {payload : Value} {store : Store} {name entity : String} {selected selected' : String → Prop}
    (h : ListsVersions payload store name entity selected)
    (h' : ListsVersions payload store name entity selected') (version : String) :
    selected version ↔ selected' version := by
  obtain ⟨versions, hanswer, -, hversions⟩ := h
  obtain ⟨versions', hanswer', -, hversions'⟩ := h'
  have hsame : versions = versions' :=
    (versionQuery_injective name entity).list_map
      (Except.ok.inj (hanswer.symm.trans hanswer'))
  rw [← hversions, ← hversions', hsame]

/-- The versions of an entity are listed.  The versions of a configuration and an
entity are listed exactly when each version of a document of the configuration is
also the version of one that carries the entity as well. -/
theorem findVersions_lists_iff
    {payload : Value} {store : Store} {name entity : String} {search : Object}
    (hc : CoherentCollection (collectionAt name store))
    (hname : childText "collection" payload = .ok name)
    (hfilter : findChildValue ["filter"] payload = .ok (.object search))
    (hentity : lookup "entities.name" search = some (.string entity)) :
    (lookup "configurations.name" search = none → NoStar entity →
        ListsVersions payload store name entity fun version =>
          ∃ id, Carries documentEntities (collectionAt name store) entity id ∧
            Carries documentVersions (collectionAt name store) version id) ∧
      ∀ configuration, lookup "configurations.name" search = some (.string configuration) →
        NoStar configuration →
        ((ListsVersions payload store name entity fun version =>
            ∃ id, Carries documentConfigurations (collectionAt name store) configuration id ∧
              Carries documentEntities (collectionAt name store) entity id ∧
              Carries documentVersions (collectionAt name store) version id) ↔
          ∀ version id,
            Carries documentConfigurations (collectionAt name store) configuration id →
            Carries documentVersions (collectionAt name store) version id →
            ∃ id', Carries documentConfigurations (collectionAt name store) configuration id' ∧
              Carries documentEntities (collectionAt name store) entity id' ∧
              Carries documentVersions (collectionAt name store) version id') := by
  refine ⟨fun habsent hstar => findVersions_entity hc hname hfilter hentity hstar habsent, ?_⟩
  intro configuration hconfiguration hstar
  have hanswer := findVersions_configuration hc hname hfilter hentity hconfiguration hstar
  constructor
  · intro hlists version id hid hversion
    exact (hanswer.unique hlists version).1 ⟨id, hid, hversion⟩
  · intro hkept
    obtain ⟨versions, hqueries, hnodup, hversions⟩ := hanswer
    refine ⟨versions, hqueries, hnodup, fun version => (hversions version).trans ⟨?_, ?_⟩⟩
    · rintro ⟨id, hid, hversion⟩
      exact hkept version id hid hversion
    · rintro ⟨id, hid, -, hversion⟩
      exact ⟨id, hid, hversion⟩

theorem coherentCollection_of_followable
    {c : Collection} (hfollowable : Followable c) (hwellFormed : c.index.WellFormed) :
    CoherentCollection c where
  coherent := hfollowable.coherent
  wellFormed := hwellFormed
  versioned id document hstored := by
    obtain ⟨sections⟩ := hfollowable.indexable id document hstored
    exact ⟨sections.version, sections.version_lookup, sections.version_ne⟩

/-- Two documents of a configuration, with different versions and entities. -/
def splitCollection : Collection :=
  (Collection.empty.replaced
    (insertRequest "1" (plainDocument "v1" ["global"] ["east"]) firstOid_ne)).replaced
    (insertRequest "2" (plainDocument "v2" ["global"] ["west"]) (by decide))

theorem splitCollection_documents :
    splitCollection.documents =
      [("1", plainDocument "v1" ["global"] ["east"]),
        ("2", plainDocument "v2" ["global"] ["west"])] := by
  decide +kernel

theorem splitCollection_coherent : CoherentCollection splitCollection := by
  have hfirst : Followable (Collection.empty.replaced
      (insertRequest "1" (plainDocument "v1" ["global"] ["east"]) (by decide))) :=
    followable_replaced followable_empty (fun _ => rfl)
      (followed_of_absent (plainDocument_indexable (by decide) (by decide) (by decide)) rfl)
  have habsent : (Collection.empty.replaced
      (insertRequest "1" (plainDocument "v1" ["global"] ["east"]) (by decide))).stored "2" =
        none := by
    decide +kernel
  refine coherentCollection_of_followable ?_
    (wellFormed_replaced (wellFormed_replaced SearchIndex.wellFormed_empty _) _)
  exact followable_replaced hfirst (fun _ => habsent)
    (followed_of_absent (plainDocument_indexable (by decide) (by decide) (by decide)) habsent)

/-- A request for versions, as a client sends it. -/
def versionsPayload (collection : String) (search : Object) : Value :=
  .object [("collection", .string collection), ("filter", .object search)]

theorem findVersions_lists_iff_entity :
    ListsVersions (versionsPayload "run" [("entities.name", .string "east")])
      [("run", splitCollection)] "run" "east" fun version =>
        ∃ id, Carries documentEntities splitCollection "east" id ∧
          Carries documentVersions splitCollection version id := by
  have hc : CoherentCollection (collectionAt "run" [("run", splitCollection)]) :=
    splitCollection_coherent
  have hfilter : findChildValue ["filter"]
      (versionsPayload "run" [("entities.name", .string "east")]) =
        .ok (.object [("entities.name", .string "east")]) := rfl
  exact (findVersions_lists_iff hc rfl hfilter rfl).1 rfl (by decide)

/-- The version of the other entity is listed too. -/
theorem findVersions_lists_other_entity :
    CoherentCollection splitCollection ∧
      ¬ ListsVersions
        (versionsPayload "run" (memberFilter "global" "east"))
        [("run", splitCollection)] "run" "east" fun version =>
          ∃ id, Carries documentConfigurations splitCollection "global" id ∧
            Carries documentEntities splitCollection "east" id ∧
            Carries documentVersions splitCollection version id := by
  refine ⟨splitCollection_coherent, ?_⟩
  rintro ⟨versions, hanswer, -, hversions⟩
  have hboth : findVersions (versionsPayload "run" (memberFilter "global" "east"))
      [("run", splitCollection)] =
        .ok (["v1", "v2"].map fun version => loadQuery "run" (versionFilter version "east")) := by
    decide +kernel
  have hsame : versions = ["v1", "v2"] :=
    (versionQuery_injective "run" "east").list_map (Except.ok.inj (hanswer.symm.trans hboth))
  have hlisted : "v2" ∈ versions := by
    simp [hsame]
  obtain ⟨id, -, ⟨document, hstored, heast⟩, document', hstored', hv2⟩ :=
    (hversions "v2").1 hlisted
  rw [hstored, Option.some.injEq] at hstored'
  subst hstored'
  have hmem := mem_of_lookup hstored
  rw [splitCollection_documents, List.mem_cons, List.mem_singleton] at hmem
  rcases hmem with hfirst | hsecond
  · rw [Prod.mk.injEq] at hfirst
    rw [hfirst.2] at hv2
    exact absurd hv2 (by decide +kernel)
  · rw [Prod.mk.injEq] at hsecond
    rw [hsecond.2] at heast
    exact absurd heast (by decide +kernel)

/-! ## Compositions -/

/-- The directories of a database have distinct names, and each is coherent. -/
structure CoherentStore (store : Store) : Prop where
  names : (store.map Prod.fst).Nodup
  named : "" ∉ store.map Prod.fst
  coherent : ∀ name c, (name, c) ∈ store → CoherentCollection c

theorem collectionAt_of_mem
    {store : Store} (hstore : CoherentStore store) {name : String} {c : Collection}
    (hmem : (name, c) ∈ store) :
    collectionAt name store = c := by
  rw [collectionAt, lookup_of_mem hstore.names hmem]
  rfl

theorem newEntities_run
    (seen : List String) {pairs : List (String ×ₗ String)}
    (hnamed : ∀ pair ∈ pairs, (ofLex pair).2 ≠ "") :
    ∃ kept, newEntities seen pairs = .ok kept ∧ kept ⊆ pairs ∧
      (kept.map fun pair => (ofLex pair).2).Nodup ∧
      (∀ pair ∈ kept, (ofLex pair).2 ∉ seen) ∧
      ∀ pair ∈ pairs, (ofLex pair).2 ∈ seen ∨
        (ofLex pair).2 ∈ kept.map fun pair => (ofLex pair).2 := by
  induction pairs generalizing seen with
  | nil => exact ⟨[], rfl, by simp⟩
  | cons pair rest ih =>
      have hpair : (ofLex pair).2 ≠ "" := hnamed pair (by simp)
      have hrest : ∀ pair ∈ rest, (ofLex pair).2 ≠ "" :=
        fun other hother => hnamed other (List.mem_cons_of_mem _ hother)
      by_cases hseen : (ofLex pair).2 ∈ seen
      · obtain ⟨kept, hrun, hsub, hnodup, hfresh, hcover⟩ := ih seen hrest
        refine ⟨kept, ?_, fun other hother => List.mem_cons_of_mem _ (hsub hother), hnodup, hfresh,
          List.forall_mem_cons.2 ⟨Or.inl hseen, hcover⟩⟩
        simp [newEntities, confirm, hpair, hseen, hrun, bind, Except.bind]
      · obtain ⟨kept, hrun, hsub, hnodup, hfresh, hcover⟩ := ih ((ofLex pair).2 :: seen) hrest
        refine ⟨pair :: kept, ?_, ?_, ?_, ?_, ?_⟩
        · simp [newEntities, confirm, hpair, hseen, hrun, bind, Except.bind]
        · exact List.cons_subset_cons pair hsub
        · rw [List.map_cons, List.nodup_cons]
          refine ⟨fun hmem => ?_, hnodup⟩
          obtain ⟨other, hother, heq⟩ := List.mem_map.1 hmem
          exact hfresh other hother (by simp [heq])
        · exact List.forall_mem_cons.2 ⟨hseen, fun other hother hmem =>
            hfresh other hother (List.mem_cons_of_mem _ hmem)⟩
        · refine List.forall_mem_cons.2 ⟨Or.inr (by simp), fun other hother => ?_⟩
          rcases hcover other hother with hmem | hmem
          · rcases List.mem_cons.1 hmem with heq | hmem
            · exact Or.inr (by simp [heq])
            · exact Or.inl hmem
          · exact Or.inr (List.mem_cons_of_mem _ hmem)

/-- Each document of the configuration carries an entity. -/
def HasEntities (c : Collection) (configuration : String) : Prop :=
  ∀ id, Carries documentConfigurations c configuration id →
    ∃ entity, Carries documentEntities c entity id

section Members

variable {c : Collection} (hc : CoherentCollection c) {configuration : String}
include hc

theorem entity_ne_empty {entity id : String} (hid : Carries documentEntities c entity id) :
    entity ≠ "" := by
  obtain ⟨ids, hmem, -⟩ := (listed_entities hc entity id).2 hid
  rintro rfl
  exact hc.wellFormed.values .entities (List.mem_map.2 ⟨_, hmem, rfl⟩)

theorem configuration_ne_empty {id : String}
    (hid : Carries documentConfigurations c configuration id) : configuration ≠ "" := by
  obtain ⟨ids, hmem, -⟩ := (listed_configurations hc configuration id).2 hid
  rintro rfl
  exact hc.wellFormed.values .configurations (List.mem_map.2 ⟨_, hmem, rfl⟩)

/-- The entities that are asked for: each is an entity of some document of the
configuration, and each such document has one of them. -/
theorem compositionOf_run
    {search : Object} (hsearch : lookup "configurations.name" search = some (.string configuration))
    (hstar : NoStar configuration) (hentities : HasEntities c configuration) (name : String) :
    ∃ asked : List String,
      compositionOf search (name, c) =
          .ok (asked.map fun entity => loadQuery name (memberFilter configuration entity)) ∧
        asked.Nodup ∧
        (∀ entity ∈ asked, ∃ id, Carries documentConfigurations c configuration id ∧
          Carries documentEntities c entity id) ∧
        ∀ id, Carries documentConfigurations c configuration id →
          ∃ entity ∈ asked, Carries documentEntities c entity id := by
  have hleft : c.index.tableAt "entities.name" = .ok c.index.entities := rfl
  have hright : c.index.tableAt "configurations.name" = .ok c.index.configurations := rfl
  have hcovered : ∀ r id, acceptValue configuration r → Listed c.index.configurations r id →
      ∃ entity, Listed c.index.entities entity id := by
    intro r id haccept hr
    rw [acceptValue_of_noStar hstar] at haccept
    rw [haccept, listed_configurations hc] at hr
    obtain ⟨entity, hentity⟩ := hentities id hr
    exact ⟨entity, (listed_entities hc entity id).2 hentity⟩
  obtain ⟨pairs, hjoin⟩ := exists_innerjoin_eq_ok hleft hright hcovered
  obtain ⟨-, hpairs, -⟩ := innerjoin_eq_ok hleft hright hjoin
  have hpair : ∀ pair ∈ pairs, (ofLex pair).1 = configuration ∧
      ∃ id, Carries documentConfigurations c configuration id ∧
        Carries documentEntities c (ofLex pair).2 id := by
    intro pair hmem
    obtain ⟨haccept, id, hr, hlast⟩ := (hpairs (ofLex pair).1 (ofLex pair).2).1 hmem
    rw [acceptValue_of_noStar hstar] at haccept
    rw [haccept, listed_configurations hc] at hr
    exact ⟨haccept, id, hr, (listed_entities hc _ id).1 hlast.listed⟩
  have hnamed : ∀ pair ∈ pairs, (ofLex pair).2 ≠ "" := by
    intro pair hmem
    obtain ⟨-, id, -, hentity⟩ := hpair pair hmem
    exact entity_ne_empty hc hentity
  obtain ⟨kept, hkept, hsub, hnodup, -, hcover⟩ := newEntities_run [] hnamed
  refine ⟨kept.map fun pair => (ofLex pair).2, ?_, hnodup, ?_, ?_⟩
  · have hpattern :
        (stringAt "configurations.name" search).toOption.getD "" = configuration := by
      rw [stringAt_eq_ok.2 hsearch]
      rfl
    have hqueries : ∀ pair ∈ kept,
        loadQuery name (memberFilter (ofLex pair).1 (ofLex pair).2) =
          loadQuery name (memberFilter configuration (ofLex pair).2) := by
      intro pair hmem
      rw [(hpair pair (hsub hmem)).1]
    simp only [compositionOf, findAllGlobalConfigurations, hpattern, hjoin, hkept, bind,
      Except.bind, List.map_map, Function.comp_def]
    rw [List.map_congr_left hqueries]
  · intro entity hmem
    obtain ⟨pair, hpairMem, rfl⟩ := List.mem_map.1 hmem
    exact (hpair pair (hsub hpairMem)).2
  · intro id hid
    obtain ⟨entity, hentity⟩ := hentities id hid
    obtain ⟨last, hlast⟩ := exists_listedLast ((listed_entities hc entity id).2 hentity)
    have hmem : toLex (configuration, last) ∈ pairs :=
      (hpairs configuration last).2 ⟨(acceptValue_of_noStar hstar _).2 rfl, id,
        (listed_configurations hc configuration id).2 hid, hlast⟩
    rcases hcover _ hmem with hnone | hmem
    · simp at hnone
    · exact ⟨last, hmem, (listed_entities hc last id).1 hlast.listed⟩

/-- A search for a configuration and an entity that some document carries finds the
documents that carry both. -/
theorem findDocumentIDs_member
    {entity : String}
    (hcommon : ∃ id, Carries documentConfigurations c configuration id ∧
      Carries documentEntities c entity id) :
    ∃ ids, findDocumentIDs c.index (memberFilter configuration entity) = .ok ids ∧
      ∀ id, id ∈ ids ↔ Carries documentConfigurations c configuration id ∧
        Carries documentEntities c entity id := by
  obtain ⟨common, hconfigured, hentitled⟩ := hcommon
  have hsupported : SupportedSearch (memberFilter configuration entity) := by
    intro criterion hcriterion
    simp only [memberFilter, List.mem_cons, List.not_mem_nil, or_false] at hcriterion
    rcases hcriterion with rfl | rfl
    · exact SupportedCriterion.configuration (configuration_ne_empty hc hconfigured)
    · exact SupportedCriterion.entity (entity_ne_empty hc hentitled)
  have hconfigurations : ∀ id, id ∈ posting configuration c.index.configurations ↔
      Carries documentConfigurations c configuration id := fun id =>
    (listed_iff_mem_posting (hc.wellFormed.keys .configurations)).symm.trans
      (listed_configurations hc configuration id)
  have hentities : ∀ id, id ∈ posting entity c.index.entities ↔
      Carries documentEntities c entity id := fun id =>
    (listed_iff_mem_posting (hc.wellFormed.keys .entities)).symm.trans
      (listed_entities hc entity id)
  have hlists : (memberFilter configuration entity).map (criterionIds c.index) =
      [posting configuration c.index.configurations, posting entity c.index.entities] := by
    have hmatchConfiguration :
        matchConfiguration c.index configuration =
          .ok (posting configuration c.index.configurations) :=
      matchTable_eq_ok (configuration_ne_empty hc hconfigured) _
    have hmatchEntity : matchEntity c.index entity = .ok (posting entity c.index.entities) :=
      matchTable_eq_ok (entity_ne_empty hc hentitled) _
    simp [memberFilter, criterionIds, runMatchingFunction, hmatchConfiguration, hmatchEntity,
      Except.toOption]
  refine ⟨_, findDocumentIDs_supported hsupported (by simp [memberFilter]) c.index, fun id => ?_⟩
  -- Each list has an id at most once, so only an id of both is counted twice.
  have hseparates : CountSeparates 2
      [posting configuration c.index.configurations, posting entity c.index.entities] := by
    refine Or.inr (Or.inr ⟨le_rfl, ⟨common, ?_⟩, fun id hmissing => ?_⟩)
    · simp [(hconfigurations common).2 hconfigured, (hentities common).2 hentitled]
    · have hfirst := List.nodup_iff_count_le_one.1
        (hc.wellFormed.postings .configurations configuration).nodup id
      have hsecond := List.nodup_iff_count_le_one.1
        (hc.wellFormed.postings .entities entity).nodup id
      have hcount : List.count id (List.flatten
          [posting configuration c.index.configurations, posting entity c.index.entities]) =
            (posting configuration c.index.configurations).count id +
              (posting entity c.index.entities).count id := by
        simp
      have hzero : (posting configuration c.index.configurations).count id = 0 ∨
          (posting entity c.index.entities).count id = 0 := by
        obtain ⟨l, hl, hid⟩ := hmissing
        rw [List.mem_cons, List.mem_singleton] at hl
        rcases hl with rfl | rfl
        · exact Or.inl (List.count_eq_zero.2 hid)
        · exact Or.inr (List.count_eq_zero.2 hid)
      rw [hcount]
      change (posting configuration c.index.configurations).count id ≤ 1 at hfirst
      change (posting entity c.index.entities).count id ≤ 1 at hsecond
      omega
  have hstrings : stringCriteria (memberFilter configuration entity) = 2 := rfl
  rw [hlists, hstrings, (combineMatches_inter_iff (by simp) (by simp)).2 hseparates id]
  simp [hconfigurations, hentities]

end Members

theorem readCollectionName_loadQuery
    {name : String} (hname : name ≠ "") (configuration entity : String) :
    readCollectionName (loadQuery name (memberFilter configuration entity)) = .ok name := by
  have hfilter : childText "collection" (.object (memberFilter configuration entity)) =
      .error (.notFound "collection") := childText_of_absent rfl
  have hcollection : childText "collection" (loadQuery name (memberFilter configuration entity)) =
      .ok name :=
    @childText_of_lookup "collection" _ (.string name) (by decide) rfl
  have hwriteFilter : writeFilter (loadQuery name (memberFilter configuration entity)) =
      memberFilter configuration entity := rfl
  simp [readCollectionName, hwriteFilter, hfilter, hcollection, confirm, hname, bind, Except.bind,
    Except.toOption]

/-- A query that some document answers reads the documents of both names. -/
theorem readDocuments_member
    {store : Store} {name configuration entity : String}
    (hc : CoherentCollection (collectionAt name store)) (hname : name ≠ "")
    (hcommon : ∃ id, Carries documentConfigurations (collectionAt name store) configuration id ∧
      Carries documentEntities (collectionAt name store) entity id) :
    ∃ documents,
      readDocuments (loadQuery name (memberFilter configuration entity)) store = .ok documents ∧
        ∀ document, document ∈ documents ↔
          ∃ id, (collectionAt name store).stored id = some document ∧
            configuration ∈ documentConfigurations document ∧
            entity ∈ documentEntities document := by
  obtain ⟨ids, hfound, hids⟩ := findDocumentIDs_member hc hcommon
  have hread : ∀ id ∈ ids, ∃ document, readFile (collectionAt name store) id = .ok document := by
    intro id hid
    obtain ⟨⟨document, hstored, -⟩, -⟩ := (hids id).1 hid
    exact ⟨document, by rw [readFile, hstored]⟩
  obtain ⟨documents, hdocuments⟩ := exists_mapM_eq_ok hread
  refine ⟨documents, ?_, fun document => ?_⟩
  · have hwriteFilter : writeFilter (loadQuery name (memberFilter configuration entity)) =
        memberFilter configuration entity := rfl
    simp only [readDocuments, readCollectionName_loadQuery hname, hwriteFilter, hfound,
      hdocuments, bind, Except.bind]
  · have hfile : ∀ id, readFile (collectionAt name store) id = .ok document ↔
        (collectionAt name store).stored id = some document := by
      intro id
      unfold readFile
      cases (collectionAt name store).stored id <;> simp
    rw [mapM_eq_ok_mem hdocuments]
    simp only [hfile, hids]
    constructor
    · rintro ⟨id, ⟨⟨_, hstored, hconfiguration⟩, _, hstored', hentity⟩, hdocument⟩
      rw [hdocument, Option.some.injEq] at hstored hstored'
      subst hstored hstored'
      exact ⟨id, hdocument, hconfiguration, hentity⟩
    · rintro ⟨id, hdocument, hconfiguration, hentity⟩
      exact ⟨id, ⟨⟨document, hdocument, hconfiguration⟩, document, hdocument, hentity⟩, hdocument⟩

/-- If each document of a configuration carries an entity, the queries together read
exactly the documents of the configuration, and none is asked twice. -/
theorem configurationComposition_covers
    {store : Store} {search : Object} {configuration : String}
    (hstore : CoherentStore store)
    (hsearch : lookup "configurations.name" search = some (.string configuration))
    (hstar : NoStar configuration)
    (hentities : ∀ name c, (name, c) ∈ store → HasEntities c configuration) :
    ∃ asked : List (String × String),
      configurationComposition search store =
          .ok (asked.map fun query => loadQuery query.1 (memberFilter configuration query.2)) ∧
        asked.Nodup ∧
        (∀ query ∈ asked, ∃ documents,
          readDocuments (loadQuery query.1 (memberFilter configuration query.2)) store =
            .ok documents) ∧
        ∀ name document,
          (∃ entity documents, (name, entity) ∈ asked ∧
            readDocuments (loadQuery name (memberFilter configuration entity)) store =
              .ok documents ∧ document ∈ documents) ↔
          ∃ id, (collectionAt name store).stored id = some document ∧
            configuration ∈ documentConfigurations document := by
  have hcollection := fun entry (hentry : entry ∈ store) =>
    compositionOf_run (hstore.coherent entry.1 entry.2 hentry) hsearch hstar
      (hentities entry.1 entry.2 hentry) entry.1
  choose! asked hasked hnodup hsome hall using hcollection
  have hqueries : ∀ entry ∈ store, ∀ entity ∈ asked entry,
      ∃ documents,
        readDocuments (loadQuery entry.1 (memberFilter configuration entity)) store =
            .ok documents ∧
          ∀ document, document ∈ documents ↔
            ∃ id, entry.2.stored id = some document ∧
              configuration ∈ documentConfigurations document ∧
              entity ∈ documentEntities document := by
    intro entry hentry entity hentity
    have hat := collectionAt_of_mem hstore hentry
    have hcoherent := hstore.coherent entry.1 entry.2 hentry
    have hname : entry.1 ≠ "" := fun hempty =>
      hstore.named (hempty ▸ List.mem_map_of_mem hentry)
    rw [← hat] at hcoherent ⊢
    refine readDocuments_member hcoherent hname ?_
    rw [hat]
    exact hsome entry hentry entity hentity
  refine ⟨store.flatMap fun entry => (asked entry).map fun entity => (entry.1, entity), ?_, ?_,
    ?_, ?_⟩
  · rw [configurationComposition, mapM_eq_map hasked, List.map_flatMap]
    simp only [bind, Except.bind, List.map_map, Function.comp_def, ← List.flatMap_def]
  · rw [List.nodup_flatMap]
    refine ⟨fun entry hentry => (hnodup entry hentry).map (Prod.mk_right_injective entry.1), ?_⟩
    refine (List.pairwise_map.1 hstore.names).imp fun {entry other} hne query hquery hother => ?_
    obtain ⟨_, _, rfl⟩ := List.mem_map.1 hquery
    obtain ⟨_, _, heq⟩ := List.mem_map.1 hother
    exact hne (congrArg Prod.fst heq).symm
  · intro query hquery
    obtain ⟨entry, hentry, hmem⟩ := List.mem_flatMap.1 hquery
    obtain ⟨entity, hentity, rfl⟩ := List.mem_map.1 hmem
    obtain ⟨documents, hread, -⟩ := hqueries entry hentry entity hentity
    exact ⟨documents, hread⟩
  · intro name document
    constructor
    · rintro ⟨entity, documents, hquery, hread, hdocument⟩
      obtain ⟨entry, hentry, hmem⟩ := List.mem_flatMap.1 hquery
      obtain ⟨_, hentity, heq⟩ := List.mem_map.1 hmem
      rw [Prod.mk.injEq] at heq
      rw [← heq.1, ← heq.2] at hread
      obtain ⟨documents', hread', hdocuments⟩ := hqueries entry hentry _ hentity
      rw [hread', Except.ok.injEq] at hread
      rw [← hread] at hdocument
      obtain ⟨id, hstored, hconfiguration, -⟩ := (hdocuments document).1 hdocument
      rw [← heq.1, collectionAt_of_mem hstore hentry]
      exact ⟨id, hstored, hconfiguration⟩
    · rintro ⟨id, hstored, hconfiguration⟩
      have hentry : (name, collectionAt name store) ∈ store := by
        cases hlookup : lookup name store with
        | none => simp [collectionAt, hlookup] at hstored
        | some c => simpa [collectionAt, hlookup] using mem_of_lookup hlookup
      obtain ⟨entity, hentity, document', hstored', hcarried⟩ :=
        hall _ hentry id ⟨document, hstored, hconfiguration⟩
      rw [hstored, Option.some.injEq] at hstored'
      subst hstored'
      obtain ⟨documents, hread, hdocuments⟩ := hqueries _ hentry entity hentity
      exact ⟨entity, documents, List.mem_flatMap.2 ⟨_, hentry, List.mem_map_of_mem hentity⟩,
        hread, (hdocuments document).2 ⟨id, hstored, hconfiguration, hcarried⟩⟩

theorem splitCollection_hasEntities : HasEntities splitCollection "global" := by
  rintro id ⟨document, hstored, -⟩
  have hmem := mem_of_lookup hstored
  rw [splitCollection_documents, List.mem_cons, List.mem_singleton] at hmem
  rcases hmem with hfirst | hsecond
  · rw [Prod.mk.injEq] at hfirst
    exact ⟨"east", document, hstored, by rw [hfirst.2]; decide +kernel⟩
  · rw [Prod.mk.injEq] at hsecond
    exact ⟨"west", document, hstored, by rw [hsecond.2]; decide +kernel⟩

theorem configurationComposition_covers_split :
    ∃ asked : List (String × String),
      configurationComposition [("configurations.name", .string "global")]
          [("run", splitCollection)] =
        .ok (asked.map fun query => loadQuery query.1 (memberFilter "global" query.2)) ∧
      asked.Nodup := by
  have hstore : CoherentStore [("run", splitCollection)] :=
    { names := by simp
      named := by simp
      coherent := by
        intro name c hmem
        rw [List.mem_singleton, Prod.mk.injEq] at hmem
        rw [hmem.2]
        exact splitCollection_coherent }
  have hentities : ∀ name c, (name, c) ∈ [("run", splitCollection)] → HasEntities c "global" := by
    intro name c hmem
    rw [List.mem_singleton, Prod.mk.injEq] at hmem
    rw [hmem.2]
    exact splitCollection_hasEntities
  have hsearch : lookup "configurations.name" [("configurations.name", .string "global")] =
      some (Value.string "global") := rfl
  obtain ⟨asked, hanswer, hnodup, -⟩ :=
    configurationComposition_covers hstore hsearch (by decide) hentities
  exact ⟨asked, hanswer, hnodup⟩

end ArtdaqDatabase
