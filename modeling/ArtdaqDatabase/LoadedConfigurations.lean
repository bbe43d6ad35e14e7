import ArtdaqDatabase.CompositionOverwrite

/-!
# Loading a composition

A composition is loaded by queries: one for each entity that the join leaves for a
collection, and for each of these a search for the versions of the configuration there.
It comes back when every document of the configuration has an entity and the documents of
one collection have one version.
-/

namespace ArtdaqDatabase

open OrderedTable InvertedIndex SortedUnique

/-- The composition can be loaded. -/
structure Loadable (configuration : String) (store : Store) : Prop where
  carried : ∃ name oid document, documentAt store name oid = some document ∧
    configuration ∈ documentConfigurations document
  entities : ∀ name oid document, documentAt store name oid = some document →
    configuration ∈ documentConfigurations document → documentEntities document ≠ []
  oneVersion : ∀ name oid oid' document document', documentAt store name oid = some document →
    documentAt store name oid' = some document' →
    configuration ∈ documentConfigurations document →
    configuration ∈ documentConfigurations document' →
    documentVersions document = documentVersions document'

/-- The members are those of the documents of the configuration, each by one of its
entities. -/
structure Loaded (configuration : String) (store : Store) (members : List VersionInfo) : Prop where
  nodup : members.Nodup
  carried : ∀ member ∈ members, ∃ oid document,
    documentAt store member.configuration oid = some document ∧
      configuration ∈ documentConfigurations document ∧
      documentVersions document = [member.version] ∧ member.entity ∈ documentEntities document
  complete : ∀ name oid document, documentAt store name oid = some document →
    configuration ∈ documentConfigurations document → ∃ member ∈ members,
      member.configuration = name ∧ documentVersions document = [member.version] ∧
        member.entity ∈ documentEntities document

/-! ## The entities of a collection -/

theorem newEntities_eq_self
    {seen : List String} {pairs : List (String ×ₗ String)}
    (hnamed : ∀ pair ∈ pairs, (ofLex pair).2 ≠ "")
    (hnodup : (pairs.map fun pair => (ofLex pair).2).Nodup)
    (hfresh : ∀ pair ∈ pairs, (ofLex pair).2 ∉ seen) :
    newEntities seen pairs = .ok pairs := by
  induction pairs generalizing seen with
  | nil => rfl
  | cons pair rest ih =>
      have hpair : (ofLex pair).2 ≠ "" := hnamed pair (by simp)
      have hseen : (ofLex pair).2 ∉ seen := hfresh pair (by simp)
      rw [List.map_cons, List.nodup_cons] at hnodup
      have hrest : newEntities ((ofLex pair).2 :: seen) rest = .ok rest := by
        apply ih
        · exact fun other hother => hnamed other (List.mem_cons_of_mem _ hother)
        · exact hnodup.2
        · intro other hother hmem
          rcases List.mem_cons.1 hmem with hsame | hold
          · exact hnodup.1 (List.mem_map.2 ⟨other, hother, hsame⟩)
          · exact hfresh other (List.mem_cons_of_mem _ hother) hold
      simp [newEntities, confirm, hpair, hseen, hrest, bind, Except.bind]

section Collection

variable {c : Collection} (hc : ListedCollection c) {configuration : String}
  (hstar : NoStar configuration)
include hc

theorem ListedCollection.listed_version (value id : String) :
    Listed c.index.version value id ↔ Carries documentVersions c value id :=
  listed_iff_carries (hc.wellFormed.keys .version) hc.version value id

/-- The entity that the join leaves for a document is one of its own. -/
theorem ListedCollection.mem_of_listedLast
    {entity id : String} {document : Object} (hstored : c.stored id = some document)
    (hlast : ListedLast c.index.entities entity id) : entity ∈ documentEntities document := by
  obtain ⟨other, hother, hentity⟩ := (hc.listed_entities entity id).1 hlast.listed
  rw [hstored, Option.some.injEq] at hother
  rw [hother]
  exact hentity

theorem ListedCollection.exists_listedLast_iff
    {id : String} {document : Object} (hstored : c.stored id = some document) :
    (∃ entity, ListedLast c.index.entities entity id) ↔ documentEntities document ≠ [] := by
  constructor
  · rintro ⟨entity, hlast⟩
    exact List.ne_nil_of_mem (hc.mem_of_listedLast hstored hlast)
  · intro hne
    obtain ⟨entity, hentity⟩ := List.exists_mem_of_ne_nil _ hne
    exact exists_listedLast ((hc.listed_entities entity id).2 ⟨document, hstored, hentity⟩)

include hstar

/-- The pairs of the join are the configuration with the last entities of its documents. -/
theorem findAllGlobalConfigurations_spec
    {pairs : List (String ×ₗ String)}
    (hpairs : findAllGlobalConfigurations c.index
      [("configurations.name", .string configuration)] = .ok pairs) :
    pairs.SortedLT ∧ ∀ r entity, toLex (r, entity) ∈ pairs ↔ r = configuration ∧
      ∃ id, Carries documentConfigurations c configuration id ∧
        ListedLast c.index.entities entity id := by
  have hleft : c.index.tableAt "entities.name" = .ok c.index.entities := rfl
  have hright : c.index.tableAt "configurations.name" = .ok c.index.configurations := rfl
  obtain ⟨hsorted, hmem, -⟩ := innerjoin_eq_ok hleft hright hpairs
  refine ⟨hsorted, fun r entity => ?_⟩
  rw [hmem, show (stringAt "configurations.name"
      [("configurations.name", Value.string configuration)]).toOption.getD "" = configuration
      from rfl, acceptValue_of_noStar hstar]
  refine and_congr_right fun hr => exists_congr fun id => ?_
  rw [hr, hc.listed_configurations]

/-- The queries of a collection ask for these entities. -/
theorem compositionOf_entities
    {pairs : List (String ×ₗ String)}
    (hpairs : findAllGlobalConfigurations c.index
      [("configurations.name", .string configuration)] = .ok pairs) (name : String) :
    compositionOf [("configurations.name", .string configuration)] (name, c) =
      .ok ((pairs.map fun pair => (ofLex pair).2).map fun entity =>
        loadQuery name (memberFilter configuration entity)) := by
  obtain ⟨hsorted, hmem⟩ := findAllGlobalConfigurations_spec hc hstar hpairs
  have hnodup := (versions_nodup hsorted hmem).1
  have hnamed : ∀ pair ∈ pairs, (ofLex pair).2 ≠ "" := by
    intro pair hpair hempty
    obtain ⟨-, id, -, hlast⟩ := (hmem (ofLex pair).1 (ofLex pair).2).1 hpair
    obtain ⟨ids, hentry, -⟩ := hlast.listed
    rw [hempty] at hentry
    exact hc.wellFormed.values .entities (List.mem_map.2 ⟨_, hentry, rfl⟩)
  have hkept : newEntities [] pairs = .ok pairs :=
    newEntities_eq_self hnamed hnodup fun _ _ => List.not_mem_nil
  have hqueries : ∀ pair ∈ pairs, loadQuery name (memberFilter (ofLex pair).1 (ofLex pair).2) =
      loadQuery name (memberFilter configuration (ofLex pair).2) := by
    intro pair hpair
    rw [((hmem (ofLex pair).1 (ofLex pair).2).1 hpair).1]
  simp only [compositionOf, hpairs, hkept, bind, Except.bind, List.map_map, Function.comp_def]
  rw [List.map_congr_left hqueries]

end Collection

/-! ## The versions of a member -/

section Versions

variable {c : Collection} (hc : ListedCollection c)
  (hindexable : ∀ id document, c.stored id = some document → Indexable document)
  {configuration : String} (hstar : NoStar configuration)
include hc hindexable

theorem ListedCollection.listedLast_version_iff {version id : String} :
    ListedLast c.index.version version id ↔ Carries documentVersions c version id := by
  constructor
  · exact fun hlast => (hc.listed_version version id).1 hlast.listed
  · intro hcarries
    obtain ⟨last, hlast⟩ := exists_listedLast ((hc.listed_version version id).2 hcarries)
    obtain ⟨document, hstored, hversion⟩ := hcarries
    obtain ⟨other, hother, hlisted⟩ := (hc.listed_version last id).1 hlast.listed
    rw [hstored, Option.some.injEq] at hother
    subst hother
    obtain ⟨sections⟩ := hindexable id document hstored
    rw [sections.documentVersions_eq, List.mem_singleton] at hversion hlisted
    rwa [hversion, ← hlisted]

include hstar

/-- The search of a member finds the versions of the configuration in its collection. -/
theorem findVersionsByGlobalConfigName_spec (entity : String) :
    ∃ pairs, findVersionsByGlobalConfigName c.index (memberFilter configuration entity) =
        .ok pairs ∧
      pairs.SortedLT ∧ ∀ r version, toLex (r, version) ∈ pairs ↔ r = configuration ∧
        ∃ id, Carries documentConfigurations c configuration id ∧
          Carries documentVersions c version id := by
  have hleft : c.index.tableAt "version" = .ok c.index.version := rfl
  have hright : c.index.tableAt "configurations.name" = .ok c.index.configurations := rfl
  have hcovered : ∀ r id, acceptValue configuration r → Listed c.index.configurations r id →
      ∃ version, Listed c.index.version version id := by
    intro r id _ hr
    obtain ⟨document, hstored, -⟩ := (hc.listed_configurations r id).1 hr
    obtain ⟨sections⟩ := hindexable id document hstored
    refine ⟨sections.version, (hc.listed_version _ _).2 ⟨document, hstored, ?_⟩⟩
    rw [sections.documentVersions_eq, List.mem_singleton]
  obtain ⟨pairs, hjoin⟩ := exists_innerjoin_eq_ok hleft hright hcovered
  obtain ⟨hsorted, hmem, -⟩ := innerjoin_eq_ok hleft hright hjoin
  refine ⟨pairs, hjoin, hsorted, fun r version => ?_⟩
  rw [hmem, acceptValue_of_noStar hstar]
  refine and_congr_right fun hr => exists_congr fun id => ?_
  rw [hr, hc.listed_configurations, hc.listedLast_version_iff hindexable]

end Versions

/-- The one version of the documents of the configuration in a collection. -/
def OnlyVersion (c : Collection) (configuration version : String) : Prop :=
  ∀ other, (∃ id, Carries documentConfigurations c configuration id ∧
    Carries documentVersions c other id) ↔ other = version

theorem eq_singleton_iff {α : Type} {xs : List α} (hnodup : xs.Nodup) (x : α) :
    xs = [x] ↔ ∀ y, y ∈ xs ↔ y = x := by
  constructor
  · rintro rfl y
    exact List.mem_singleton
  · intro hmem
    have hperm : xs.Perm [x] :=
      (List.perm_ext_iff_of_nodup hnodup (List.nodup_singleton x)).2 fun y => by
        rw [hmem, List.mem_singleton]
    exact List.perm_singleton.1 hperm

section Member

variable {store : Store} {name : String} (hc : ListedCollection (collectionAt name store))
  (hindexable : ∀ id document, (collectionAt name store).stored id = some document →
    Indexable document)
  {configuration : String} (hstar : NoStar configuration)
include hc hindexable hstar

/-- A member is loaded exactly if the configuration has one version in its collection. -/
theorem loadMember_eq_ok_iff (entity : String) (member : VersionInfo) :
    ConfigurationInterface.loadMember store
        (loadQuery name (memberFilter configuration entity)) = .ok member ↔
      member.configuration = name ∧ member.entity = entity ∧
        OnlyVersion (collectionAt name store) configuration member.version := by
  obtain ⟨pairs, hpairs, hsorted, hmem⟩ :=
    findVersionsByGlobalConfigName_spec hc hindexable hstar entity
  obtain ⟨hnodup, hversions⟩ := versions_nodup hsorted hmem
  generalize hlist : (pairs.map fun pair => (ofLex pair).2) = versions at hnodup hversions
  have hfound : findVersions (loadQuery name (memberFilter configuration entity)) store =
      .ok (versions.map fun version => loadQuery name (versionFilter version entity)) := by
    have hname : childText "collection"
        (loadQuery name (memberFilter configuration entity)) = .ok name :=
      @childText_of_lookup "collection" _ (.string name) (by decide) rfl
    have hfilter : findChildValue ["filter"] (loadQuery name (memberFilter configuration entity)) =
        .ok (.object (memberFilter configuration entity)) := rfl
    have hcount : count "configurations.name" (memberFilter configuration entity) = 1 := rfl
    have hentity : (stringAt "entities.name" (memberFilter configuration entity)).toOption.getD
        "notprovided" = entity := rfl
    simp [findVersions, hname, hfilter, hcount, hpairs, hentity, bind, Except.bind, ← hlist,
      Function.comp_def]
  have honly : OnlyVersion (collectionAt name store) configuration member.version ↔
      versions = [member.version] := by
    rw [eq_singleton_iff hnodup, OnlyVersion]
    exact forall_congr' fun version => iff_congr (hversions version).symm Iff.rfl
  rw [honly]
  rw [ConfigurationInterface.loadMember, hfound]
  cases versions with
  | nil => simp [bind, Except.bind]
  | cons version rest =>
      cases rest with
      | nil =>
          have hinfo : ConfigurationInterface.toVersionInfo
              (loadQuery name (versionFilter version entity)) = .ok ⟨name, version, entity⟩ := rfl
          simp only [List.map_cons, List.map_nil, bind, Except.bind, hinfo, Except.ok.injEq,
            List.cons.injEq, and_true]
          constructor
          · rintro rfl
            exact ⟨rfl, rfl, rfl⟩
          · rintro ⟨hconfiguration, hentity, hversion⟩
            rw [← hconfiguration, ← hentity, hversion]
      | cons other rest => simp [bind, Except.bind]

end Member

/-! ## The composition -/

section Store

variable {store : Store} (hstore : TidyStore store) {configuration : String}
  (hstar : NoStar configuration)
include hstore hstar

/-- The queries of a composition, each once: the last entities of its documents. -/
theorem compositionQueries_spec
    {queries : List Value} (hqueries : compositionQueries
      [("configurations.name", .string configuration)] store = .ok queries) :
    queries.Nodup ∧ ∀ query, query ∈ queries ↔ ∃ name oid document entity,
      documentAt store name oid = some document ∧
        configuration ∈ documentConfigurations document ∧
        ListedLast (collectionAt name store).index.entities entity oid ∧
        query = loadQuery name (memberFilter configuration entity) := by
  simp only [compositionQueries, configurationComposition, bind_eq_ok] at hqueries
  obtain ⟨_, ⟨lists, hlists, hflatten⟩, hqueries⟩ := hqueries
  rw [Except.ok.injEq] at hflatten
  subst hflatten
  have hlisted : ∀ entry ∈ store, ∃ pairs, findAllGlobalConfigurations entry.2.index
      [("configurations.name", .string configuration)] = .ok pairs := by
    intro entry hentry
    obtain ⟨list, hlist⟩ := forall_ok_of_mapM hlists entry hentry
    simp only [compositionOf, bind_eq_ok] at hlist
    obtain ⟨pairs, hpairs, -⟩ := hlist
    exact ⟨pairs, hpairs⟩
  choose! pairs hpairs using hlisted
  have hrun := mapM_eq_map fun entry (hentry : entry ∈ store) =>
    compositionOf_entities (hstore.listed entry.1 entry.2 hentry) hstar (hpairs entry hentry) entry.1
  rw [hlists, Except.ok.injEq] at hrun
  split at hqueries
  · cases hqueries
  rw [← Except.ok.inj hqueries, hrun, ← List.flatMap_def]
  have hspec := fun entry (hentry : entry ∈ store) =>
    findAllGlobalConfigurations_spec (hstore.listed entry.1 entry.2 hentry) hstar
      (hpairs entry hentry)
  have hentities := fun entry (hentry : entry ∈ store) =>
    versions_nodup (hspec entry hentry).1 (hspec entry hentry).2
  constructor
  · rw [List.nodup_flatMap]
    refine ⟨fun entry hentry => (hentities entry hentry).1.map ?_, ?_⟩
    · intro first second hsame
      simpa [loadQuery, memberFilter] using hsame
    · refine (List.pairwise_map.1 hstore.names).imp
        fun {entry other} hne query hquery hother => ?_
      obtain ⟨_, _, rfl⟩ := List.mem_map.1 hquery
      obtain ⟨_, _, hsame⟩ := List.mem_map.1 hother
      simp only [loadQuery, Value.object.injEq, List.cons.injEq, Prod.mk.injEq,
        Value.string.injEq, true_and] at hsame
      exact hne hsame.1.symm
  · intro query
    rw [List.mem_flatMap]
    constructor
    · rintro ⟨⟨name, c⟩, hentry, hquery⟩
      obtain ⟨entity, hentity, rfl⟩ := List.mem_map.1 hquery
      obtain ⟨oid, ⟨document, hstored, hcarries⟩, hlast⟩ :=
        ((hentities (name, c) hentry).2 entity).1 hentity
      have hat : collectionAt name store = c := by
        rw [collectionAt, lookup_of_mem hstore.names hentry]
        rfl
      refine ⟨name, oid, document, entity, ?_, hcarries, ?_, rfl⟩
      · rw [documentAt, hat, hstored]
      · rwa [hat]
    · rintro ⟨name, oid, document, entity, hdocument, hcarries, hlast, rfl⟩
      obtain ⟨c, hentry, hstored⟩ := exists_mem_of_documentAt hdocument
      have hat : collectionAt name store = c := by
        rw [collectionAt, lookup_of_mem hstore.names hentry]
        rfl
      rw [hat] at hlast
      refine ⟨(name, c), hentry, List.mem_map_of_mem ?_⟩
      exact ((hentities (name, c) hentry).2 entity).2 ⟨oid, ⟨document, hstored, hcarries⟩, hlast⟩

/-- A member of the query is loaded if the configuration has one version where it is. -/
theorem loadMember_spec (name entity : String) (member : VersionInfo) :
    ConfigurationInterface.loadMember store
        (loadQuery name (memberFilter configuration entity)) = .ok member ↔
      member.configuration = name ∧ member.entity = entity ∧
        OnlyVersion (collectionAt name store) configuration member.version :=
  loadMember_eq_ok_iff (hstore.collectionAt name)
    (fun oid document hstored => hstore.indexable name oid document hstored) hstar entity member

omit hstar in
theorem documentVersions_of_documentAt
    {name oid : String} {document : Object} (hdocument : documentAt store name oid = some document) :
    ∃ version, documentVersions document = [version] := by
  obtain ⟨sections⟩ := hstore.indexable name oid document hdocument
  exact ⟨sections.version, sections.documentVersions_eq⟩

omit hstar in
/-- A version is the only one exactly if it is the one of each document. -/
theorem onlyVersion_iff
    {name oid : String} {document : Object} (hdocument : documentAt store name oid = some document)
    (hcarries : configuration ∈ documentConfigurations document) (version : String) :
    OnlyVersion (collectionAt name store) configuration version ↔
      ∀ oid' document', documentAt store name oid' = some document' →
        configuration ∈ documentConfigurations document' →
        documentVersions document' = [version] := by
  constructor
  · intro honly oid' document' hdocument' hcarries'
    obtain ⟨other, hother⟩ := documentVersions_of_documentAt hstore hdocument'
    have hsame : other = version := by
      refine (honly other).1 ⟨oid', ⟨document', hdocument', hcarries'⟩, document', hdocument', ?_⟩
      rw [hother, List.mem_singleton]
    rw [hother, hsame]
  · intro hall other
    constructor
    · rintro ⟨oid', ⟨document', hdocument', hcarries'⟩, found, hfound, hversion⟩
      rw [hdocument', Option.some.injEq] at hfound
      subst hfound
      rwa [hall oid' document' hdocument' hcarries', List.mem_singleton] at hversion
    · rintro rfl
      refine ⟨oid, ⟨document, hdocument, hcarries⟩, document, hdocument, ?_⟩
      rw [hall oid document hdocument hcarries, List.mem_singleton]

end Store

theorem nodup_of_mapM
    {α β : Type} {f : α → Except Failure β} {xs : List α} {ys : List β}
    (hrun : xs.mapM f = .ok ys) (hnodup : xs.Nodup)
    (hinjective : ∀ x ∈ xs, ∀ x' ∈ xs, ∀ y, f x = .ok y → f x' = .ok y → x = x') : ys.Nodup := by
  induction xs generalizing ys with
  | nil =>
      simp only [List.mapM_nil, pure, Except.pure, Except.ok.injEq] at hrun
      rw [← hrun]
      exact List.nodup_nil
  | cons x xs ih =>
      simp only [List.mapM_cons, bind_eq_ok, pure, Except.pure, Except.ok.injEq] at hrun
      obtain ⟨first, hfirst, rest, hrest, rfl⟩ := hrun
      have hxs := List.nodup_cons.1 hnodup
      refine List.nodup_cons.2 ⟨fun hmem => ?_, ?_⟩
      · obtain ⟨x', hx', hsame⟩ := (mapM_eq_ok_mem hrest first).1 hmem
        have heq := hinjective x (by simp) x' (List.mem_cons_of_mem _ hx') first hfirst hsame
        exact hxs.1 (heq ▸ hx')
      · exact ih hrest hxs.2 fun y hy y' hy' =>
          hinjective y (List.mem_cons_of_mem _ hy) y' (List.mem_cons_of_mem _ hy')

section Load

variable {store : Store} (hstore : TidyStore store) {configuration : OptionText}
  (hprovided : configuration ≠ notprovided) (hstar : NoStar configuration.text)

theorem carriesAccepted_iff {name : String} (hname : NoStar name) (document : Object) :
    CarriesAccepted name document ↔ name ∈ documentConfigurations document := by
  constructor
  · rintro ⟨value, hvalue, haccept⟩
    rw [acceptValue_of_noStar hname] at haccept
    rwa [← haccept]
  · exact fun hmem => ⟨name, hmem, acceptValue_self name⟩

include hprovided in
theorem loadGlobalConfiguration_eq_ok_iff (members : List VersionInfo) :
    ConfigurationInterface.loadGlobalConfiguration configuration store = .ok members ↔
      ∃ queries, compositionQueries [("configurations.name", .string configuration.text)] store =
          .ok queries ∧
        queries.mapM (ConfigurationInterface.loadMember store) = .ok members := by
  have hsearch : configurationSearch configuration =
      [("configurations.name", .string configuration.text)] := if_neg hprovided
  rw [ConfigurationInterface.loadGlobalConfiguration, hsearch]
  exact bind_eq_ok

include hstore hprovided hstar

theorem loaded_of_load
    {members : List VersionInfo}
    (hload : ConfigurationInterface.loadGlobalConfiguration configuration store = .ok members) :
    Loaded configuration.text store members := by
  obtain ⟨queries, hqueries, hmembers⟩ := (loadGlobalConfiguration_eq_ok_iff hprovided members).1 hload
  obtain ⟨hnodup, hmem⟩ := compositionQueries_spec hstore hstar hqueries
  have hread := loadMember_spec hstore hstar
  have hanswerable : ∀ name oid document, documentAt store name oid = some document →
      configuration.text ∈ documentConfigurations document → documentEntities document ≠ [] := by
    intro name oid document hdocument hcarries
    have hall := (compositionQueries_returns_iff hstore.toListedStore configuration.text).1
      ⟨queries, hqueries⟩
    exact hall.entities name oid document hdocument ((carriesAccepted_iff hstar document).2 hcarries)
  constructor
  · refine nodup_of_mapM hmembers hnodup fun query hquery query' hquery' member hrun hrun' => ?_
    obtain ⟨name, _, _, entity, -, -, -, rfl⟩ := (hmem query).1 hquery
    obtain ⟨name', _, _, entity', -, -, -, rfl⟩ := (hmem query').1 hquery'
    have hfirst := (hread name entity member).1 hrun
    have hsecond := (hread name' entity' member).1 hrun'
    rw [← hfirst.1, ← hfirst.2.1, ← hsecond.1, ← hsecond.2.1]
  · intro member hmember
    obtain ⟨query, hquery, hrun⟩ := (mapM_eq_ok_mem hmembers member).1 hmember
    obtain ⟨name, oid, document, entity, hdocument, hcarries, hlast, rfl⟩ := (hmem query).1 hquery
    obtain ⟨hname, hentity, honly⟩ := (hread name entity member).1 hrun
    have hversion := (onlyVersion_iff hstore hdocument hcarries member.version).1 honly
      oid document hdocument hcarries
    refine ⟨oid, document, by rw [hname, hdocument], hcarries, hversion, ?_⟩
    rw [hentity]
    exact (hstore.toListedStore.collectionAt name).mem_of_listedLast hdocument hlast
  · intro name oid document hdocument hcarries
    have hc := hstore.toListedStore.collectionAt name
    obtain ⟨entity, hlast⟩ := (hc.exists_listedLast_iff hdocument).2
      (hanswerable name oid document hdocument hcarries)
    have hquery := (hmem (loadQuery name (memberFilter configuration.text entity))).2
      ⟨name, oid, document, entity, hdocument, hcarries, hlast, rfl⟩
    obtain ⟨member, hrun⟩ := forall_ok_of_mapM hmembers _ hquery
    obtain ⟨hname, hentity, honly⟩ := (hread name entity member).1 hrun
    have hversion := (onlyVersion_iff hstore hdocument hcarries member.version).1 honly
      oid document hdocument hcarries
    refine ⟨member, (mapM_eq_ok_mem hmembers member).2 ⟨_, hquery, hrun⟩, hname, hversion, ?_⟩
    rw [hentity]
    exact hc.mem_of_listedLast hdocument hlast

theorem exists_load_iff :
    (∃ members, ConfigurationInterface.loadGlobalConfiguration configuration store =
      .ok members) ↔ Loadable configuration.text store := by
  have haccepted := fun document => carriesAccepted_iff hstar document
  constructor
  · rintro ⟨members, hload⟩
    have hloaded := loaded_of_load hstore hprovided hstar hload
    obtain ⟨queries, hqueries, hmembers⟩ :=
      (loadGlobalConfiguration_eq_ok_iff hprovided members).1 hload
    have hmem := (compositionQueries_spec hstore hstar hqueries).2
    obtain ⟨⟨name, oid, document, hdocument, hcarries⟩, hentities⟩ :=
      (compositionQueries_returns_iff hstore.toListedStore configuration.text).1 ⟨queries, hqueries⟩
    constructor
    · exact ⟨name, oid, document, hdocument, (haccepted document).1 hcarries⟩
    · exact fun name oid document hdocument hcarries =>
        hentities name oid document hdocument ((haccepted document).2 hcarries)
    · intro name oid oid' document document' hdocument hdocument' hcarries hcarries'
      obtain ⟨member, hmember, hname, -⟩ := hloaded.complete name oid document hdocument hcarries
      obtain ⟨query, hquery, hrun⟩ := (mapM_eq_ok_mem hmembers member).1 hmember
      obtain ⟨asked, _, _, entity, -, -, -, rfl⟩ := (hmem query).1 hquery
      obtain ⟨hasked, -, honly⟩ := (loadMember_spec hstore hstar asked entity member).1 hrun
      rw [← hasked, hname] at honly
      have hall := (onlyVersion_iff hstore hdocument hcarries member.version).1 honly
      rw [hall oid document hdocument hcarries, hall oid' document' hdocument' hcarries']
  · rintro ⟨⟨name, oid, document, hdocument, hcarries⟩, hentities, honeVersion⟩
    have hanswerable : Answerable configuration.text store := by
      refine ⟨⟨name, oid, document, hdocument, (haccepted document).2 hcarries⟩, ?_⟩
      exact fun name oid document hdocument hcarries =>
        hentities name oid document hdocument ((haccepted document).1 hcarries)
    obtain ⟨queries, hqueries⟩ :=
      (compositionQueries_returns_iff hstore.toListedStore configuration.text).2 hanswerable
    obtain ⟨-, hmem⟩ := compositionQueries_spec hstore hstar hqueries
    have hread : ∀ query ∈ queries, ∃ member,
        ConfigurationInterface.loadMember store query = .ok member := by
      intro query hquery
      obtain ⟨name, oid, document, entity, hdocument, hcarries, -, rfl⟩ := (hmem query).1 hquery
      obtain ⟨version, hversion⟩ := documentVersions_of_documentAt hstore hdocument
      refine ⟨⟨name, version, entity⟩, (loadMember_spec hstore hstar name entity _).2
        ⟨rfl, rfl, (onlyVersion_iff hstore hdocument hcarries version).2 ?_⟩⟩
      intro oid' document' hdocument' hcarries'
      rw [← hversion]
      exact honeVersion name oid' oid document' document hdocument' hdocument hcarries' hcarries
    obtain ⟨members, hmembers⟩ := exists_mapM_eq_ok hread
    exact ⟨members, (loadGlobalConfiguration_eq_ok_iff hprovided members).2
      ⟨queries, hqueries, hmembers⟩⟩

end Load

/-! ## Documents with one entity -/

/-- The member names the version and the entity of the document, which has no other. -/
structure HasMember (document : Object) (member : VersionInfo) : Prop where
  version : documentVersions document = [member.version]
  entity : ∀ entity, entity ∈ documentEntities document ↔ entity = member.entity

theorem HasMember.unique {document : Object} {member other : VersionInfo}
    (hmember : HasMember document member) (hversion : documentVersions document = [other.version])
    (hentity : other.entity ∈ documentEntities document) :
    other.version = member.version ∧ other.entity = member.entity := by
  have hsame := hversion.symm.trans hmember.version
  rw [List.cons.injEq] at hsame
  exact ⟨hsame.1, (hmember.entity other.entity).1 hentity⟩

/-- If the documents of a configuration have one entity each, a loaded composition has
their members and no others. -/
theorem Loaded.mem_iff
    {configuration : String} {store : Store} {members : List VersionInfo}
    (hloaded : Loaded configuration store members)
    (hsingle : ∀ name oid document, documentAt store name oid = some document →
      configuration ∈ documentConfigurations document → ∃ member, HasMember document member)
    (member : VersionInfo) :
    member ∈ members ↔ ∃ oid document,
      documentAt store member.configuration oid = some document ∧
        configuration ∈ documentConfigurations document ∧ HasMember document member := by
  constructor
  · intro hmember
    obtain ⟨oid, document, hdocument, hcarries, hversion, hentity⟩ := hloaded.carried member hmember
    obtain ⟨other, hother⟩ := hsingle _ oid document hdocument hcarries
    obtain ⟨hsameVersion, hsameEntity⟩ := hother.unique hversion hentity
    refine ⟨oid, document, hdocument, hcarries, hversion, fun entity => ?_⟩
    rw [hother.entity, hsameEntity]
  · rintro ⟨oid, document, hdocument, hcarries, hmember⟩
    obtain ⟨found, hfound, hname, hversion, hentity⟩ :=
      hloaded.complete member.configuration oid document hdocument hcarries
    obtain ⟨hsameVersion, hsameEntity⟩ := hmember.unique hversion hentity
    have hsame : found = member := by
      cases found
      cases member
      simp_all
    rwa [← hsame]

end ArtdaqDatabase
