import ArtdaqDatabase.ConfigurationEdits

/-!
# Finding configurations

`findConfigurations` joins the configurations of each collection with its entities,
gathers the times at which each was assigned and sorts the names by the whole seconds
of the latest one.  A document without an entity stops the search, and two names whose
latest times fall into one second stand in alphabetical order.
-/

namespace ArtdaqDatabase

open OrderedTable InvertedIndex SortedUnique FallingMultimap

/-! ## One collection -/

/-- The document records that the configuration was assigned at the time. -/
def RecordsTime (toTimepoint : String → Except Failure ℤ) (document : Object) (configuration : String)
    (time : ℤ) : Prop :=
  ∃ assigned, (configuration, assigned) ∈ documentAssignments document ∧
    toTimepoint assigned = .ok time

theorem mem_documentAssignments {document : Object} {configuration assigned : String} :
    (configuration, assigned) ∈ documentAssignments document ↔
      ∃ config ∈ sectionEntries "configurations" document,
        assignmentOf config = .ok (configuration, assigned) := by
  rw [documentAssignments, assignmentsOf, List.mem_filterMap]
  refine exists_congr fun config => and_congr_right fun _ => ?_
  cases assignmentOf config <;> simp [Except.toOption]

theorem carries_of_assigned {document : Object} {configuration assigned : String}
    (hassigned : (configuration, assigned) ∈ documentAssignments document) :
    configuration ∈ documentConfigurations document := by
  obtain ⟨config, hmem, hconfig⟩ := mem_documentAssignments.1 hassigned
  rw [documentConfigurations, mem_namesOf]
  exact ⟨config, hmem, (assignmentOf_eq_ok.1 hconfig).1⟩

section Collection

variable {c : Collection} (hc : CoherentCollection c) (pattern : String)
  (toTimepoint : String → Except Failure ℤ)
include hc

theorem mem_getConfigurationAssignedTimestamps (configuration assigned : String) :
    assigned ∈ getConfigurationAssignedTimestamps c.index
        [("configurations.name", .string configuration)] ↔
      ∃ oid document, c.stored oid = some document ∧
        (configuration, assigned) ∈ documentAssignments document := by
  have hposting : getConfigurationAssignedTimestamps c.index
      [("configurations.name", .string configuration)] =
        posting configuration c.index.configurationsAssigned := rfl
  rw [hposting, ← mem_entries, hc.coherent.configurationsAssigned]
  rfl

/-- The names that the join leaves are the accepted ones that a document carries. -/
theorem exists_findAllGlobalConfigurations_iff
    {pairs : List (String ×ₗ String)}
    (hpairs : findAllGlobalConfigurations c.index
      [("configurations.name", .string pattern)] = .ok pairs) (configuration : String) :
    (∃ pair ∈ pairs, (ofLex pair).1 = configuration) ↔
      acceptValue pattern configuration ∧
        ∃ oid document, c.stored oid = some document ∧
          configuration ∈ documentConfigurations document := by
  have hleft : c.index.tableAt "entities.name" = .ok c.index.entities := rfl
  have hright : c.index.tableAt "configurations.name" = .ok c.index.configurations := rfl
  obtain ⟨-, hmem, hcovered⟩ := innerjoin_eq_ok hleft hright hpairs
  constructor
  · rintro ⟨pair, hpair, rfl⟩
    obtain ⟨haccept, oid, hlisted, -⟩ := (hmem (ofLex pair).1 (ofLex pair).2).1 hpair
    obtain ⟨document, hstored, hvalue⟩ := (hc.listed.listed_configurations _ oid).1 hlisted
    exact ⟨haccept, oid, document, hstored, hvalue⟩
  · rintro ⟨haccept, oid, document, hstored, hvalue⟩
    have hlisted : Listed c.index.configurations configuration oid :=
      (hc.listed.listed_configurations configuration oid).2 ⟨document, hstored, hvalue⟩
    obtain ⟨entity, hentity⟩ := hcovered configuration oid haccept hlisted
    obtain ⟨last, hlast⟩ := exists_listedLast hentity
    exact ⟨toLex (configuration, last), (hmem configuration last).2 ⟨haccept, oid, hlisted, hlast⟩,
      rfl⟩

/-- The times of one configuration can be read exactly if each of them can. -/
theorem configurationKeys_returns_iff (configuration : String) :
    (∃ keys, configurationKeys toTimepoint c.index configuration = .ok keys) ↔
      ∀ oid document assigned, c.stored oid = some document →
        (configuration, assigned) ∈ documentAssignments document →
        ∃ time, toTimepoint assigned = .ok time := by
  constructor
  · rintro ⟨keys, hkeys⟩ oid document assigned hstored hassigned
    simp only [configurationKeys, bind_eq_ok] at hkeys
    obtain ⟨times, htimes, -⟩ := hkeys
    exact forall_ok_of_mapM htimes assigned
      ((mem_getConfigurationAssignedTimestamps hc configuration assigned).2
        ⟨oid, document, hstored, hassigned⟩)
  · intro hreadable
    have hall : ∀ assigned ∈ getConfigurationAssignedTimestamps c.index
        [("configurations.name", .string configuration)], ∃ time, toTimepoint assigned = .ok time := by
      intro assigned hmem
      obtain ⟨oid, document, hstored, hassigned⟩ :=
        (mem_getConfigurationAssignedTimestamps hc configuration assigned).1 hmem
      exact hreadable oid document assigned hstored hassigned
    obtain ⟨times, htimes⟩ := exists_mapM_eq_ok hall
    exact ⟨times.map fun time => (configuration, timestampKey time), by
      simp only [configurationKeys, htimes, bind, Except.bind]⟩

theorem mem_configurationKeys {name configuration : String} {keys : List (String × ℕ)}
    (hkeys : configurationKeys toTimepoint c.index name = .ok keys) (key : ℕ) :
    (configuration, key) ∈ keys ↔ name = configuration ∧
      ∃ oid document time, c.stored oid = some document ∧
        RecordsTime toTimepoint document configuration time ∧ key = timestampKey time := by
  simp only [configurationKeys, bind_eq_ok, Except.ok.injEq] at hkeys
  obtain ⟨times, htimes, rfl⟩ := hkeys
  simp only [List.mem_map, Prod.mk.injEq]
  constructor
  · rintro ⟨time, htime, rfl, rfl⟩
    obtain ⟨assigned, hmem, hread⟩ := (mapM_eq_ok_mem htimes time).1 htime
    obtain ⟨oid, document, hstored, hassigned⟩ :=
      (mem_getConfigurationAssignedTimestamps hc name assigned).1 hmem
    exact ⟨rfl, oid, document, time, hstored, ⟨assigned, hassigned, hread⟩, rfl⟩
  · rintro ⟨rfl, oid, document, time, hstored, ⟨assigned, hassigned, hread⟩, rfl⟩
    have hmem := (mem_getConfigurationAssignedTimestamps hc name assigned).2
      ⟨oid, document, hstored, hassigned⟩
    exact ⟨time, (mapM_eq_ok_mem htimes time).2 ⟨assigned, hmem, hread⟩, rfl, rfl⟩

/-- A collection is searched without an exception exactly if each document with an accepted
configuration has an entity and the times of these configurations can be read. -/
theorem assignedKeys_returns_iff (name : String) :
    (∃ keys, assignedKeys toTimepoint [("configurations.name", .string pattern)] (name, c) =
        .ok keys) ↔
      (∀ oid document, c.stored oid = some document → CarriesAccepted pattern document →
        documentEntities document ≠ []) ∧
      ∀ oid document configuration assigned, c.stored oid = some document →
        acceptValue pattern configuration →
        (configuration, assigned) ∈ documentAssignments document →
        ∃ time, toTimepoint assigned = .ok time := by
  rw [← findAllGlobalConfigurations_returns_iff hc.listed pattern]
  constructor
  · rintro ⟨keys, hkeys⟩
    simp only [assignedKeys, bind_eq_ok] at hkeys
    obtain ⟨pairs, hpairs, lists, hlists, -⟩ := hkeys
    refine ⟨⟨pairs, hpairs⟩, fun oid document configuration assigned hstored haccept hassigned => ?_⟩
    obtain ⟨pair, hpair, hname⟩ :=
      (exists_findAllGlobalConfigurations_iff hc pattern hpairs configuration).2
        ⟨haccept, oid, document, hstored, carries_of_assigned hassigned⟩
    have hread := (configurationKeys_returns_iff hc toTimepoint (ofLex pair).1).1
      (forall_ok_of_mapM hlists pair hpair)
    rw [hname] at hread
    exact hread oid document assigned hstored hassigned
  · rintro ⟨⟨pairs, hpairs⟩, hreadable⟩
    have hall : ∀ pair ∈ pairs, ∃ keys,
        configurationKeys toTimepoint c.index (ofLex pair).1 = .ok keys := by
      intro pair hpair
      obtain ⟨haccept, -⟩ :=
        (exists_findAllGlobalConfigurations_iff hc pattern hpairs (ofLex pair).1).1
          ⟨pair, hpair, rfl⟩
      refine (configurationKeys_returns_iff hc toTimepoint (ofLex pair).1).2 ?_
      exact fun oid document assigned hstored => hreadable oid document _ assigned hstored haccept
    obtain ⟨lists, hlists⟩ := exists_mapM_eq_ok hall
    exact ⟨lists.flatten, by simp only [assignedKeys, hpairs, hlists, bind, Except.bind]⟩

theorem mem_assignedKeys {name : String} {keys : List (String × ℕ)}
    (hkeys : assignedKeys toTimepoint [("configurations.name", .string pattern)] (name, c) =
      .ok keys) (configuration : String) (key : ℕ) :
    (configuration, key) ∈ keys ↔ acceptValue pattern configuration ∧
      ∃ oid document time, c.stored oid = some document ∧
        RecordsTime toTimepoint document configuration time ∧ key = timestampKey time := by
  simp only [assignedKeys, bind_eq_ok] at hkeys
  obtain ⟨pairs, hpairs, lists, hlists, hflatten⟩ := hkeys
  rw [Except.ok.injEq] at hflatten
  subst hflatten
  have hnames := exists_findAllGlobalConfigurations_iff hc pattern hpairs configuration
  rw [List.mem_flatten]
  constructor
  · rintro ⟨list, hlist, hmem⟩
    obtain ⟨pair, hpair, hrun⟩ := (mapM_eq_ok_mem hlists list).1 hlist
    obtain ⟨hname, hrecorded⟩ := (mem_configurationKeys hc toTimepoint hrun key).1 hmem
    exact ⟨(hnames.1 ⟨pair, hpair, hname⟩).1, hrecorded⟩
  · rintro ⟨haccept, hrecorded⟩
    obtain ⟨oid, document, time, hstored, hrecords, -⟩ := id hrecorded
    obtain ⟨assigned, hassigned, -⟩ := hrecords
    obtain ⟨pair, hpair, hname⟩ :=
      hnames.2 ⟨haccept, oid, document, hstored, carries_of_assigned hassigned⟩
    obtain ⟨list, hrun⟩ := forall_ok_of_mapM hlists pair hpair
    exact ⟨list, (mapM_eq_ok_mem hlists list).2 ⟨pair, hpair, hrun⟩,
      (mem_configurationKeys hc toTimepoint hrun key).2 ⟨hname, hrecorded⟩⟩

end Collection

/-! ## The timestamps of the names -/

section Timestamps

variable (keys : List (String × ℕ))

theorem mem_posting_configTimestamps (configuration : String) (key : ℕ) :
    key ∈ posting configuration (configTimestamps keys) ↔ (configuration, key) ∈ keys := by
  rw [← mem_entries, configTimestamps, entries_foldl_insertPair, entries_nil]
  simp

theorem sortedPostings_configTimestamps : SortedPostings (configTimestamps keys) := by
  have hfold : ∀ t, SortedPostings t →
      SortedPostings (keys.foldl (fun t p => insertPosting p.1 p.2 t) t) := by
    induction keys with
    | nil => exact fun t ht => ht
    | cons p rest ih => exact fun t ht => ih _ (ht.insertPosting p.1 p.2)
  exact hfold [] sortedPostings_nil

theorem mem_keys_configTimestamps (configuration : String) :
    configuration ∈ (configTimestamps keys).map Prod.fst ↔ ∃ key, (configuration, key) ∈ keys := by
  have hfold : ∀ t : Table String (List ℕ),
      configuration ∈ (keys.foldl (fun t p => insertPosting p.1 p.2 t) t).map Prod.fst →
        configuration ∈ t.map Prod.fst ∨ ∃ key, (configuration, key) ∈ keys := by
    induction keys with
    | nil => exact fun t ht => Or.inl ht
    | cons p rest ih =>
        intro t ht
        rcases ih _ ht with hhead | ⟨key, hkey⟩
        · rcases mem_keys_insertPosting hhead with rfl | hold
          · exact Or.inr ⟨p.2, by simp⟩
          · exact Or.inl hold
        · exact Or.inr ⟨key, List.mem_cons_of_mem _ hkey⟩
  constructor
  · intro hmem
    rcases hfold [] hmem with hnil | hkey
    · cases hnil
    · exact hkey
  · rintro ⟨key, hkey⟩
    rw [← mem_posting_configTimestamps] at hkey
    by_contra hnone
    rw [← lookup_eq_none_iff] at hnone
    simp [posting, hnone] at hkey

/-- The last time of a name is the greatest one. -/
theorem isGreatest_latest {configuration : String} (hkey : ∃ key, (configuration, key) ∈ keys) :
    IsGreatest {key | (configuration, key) ∈ keys}
      ((posting configuration (configTimestamps keys)).getLast?.getD 0) := by
  obtain ⟨key, hkey⟩ := hkey
  rw [← mem_posting_configTimestamps] at hkey
  have hne : posting configuration (configTimestamps keys) ≠ [] := List.ne_nil_of_mem hkey
  rw [List.getLast?_eq_some_getLast hne, Option.getD_some]
  refine ⟨(mem_posting_configTimestamps keys _ _).1 (List.getLast_mem hne), fun other hother => ?_⟩
  rw [Set.mem_ofPred_eq, ← mem_posting_configTimestamps] at hother
  exact (sortedPostings_configTimestamps keys configuration).sortedLE.pairwise.rel_getLast hother

theorem mem_timestampConfigs (config : ℕ × String) :
    config ∈ timestampConfigs (configTimestamps keys) ↔
      IsGreatest {key | (config.2, key) ∈ keys} config.1 := by
  rw [timestampConfigs, (emplaceAll_perm _).mem_iff, List.mem_map]
  simp only [mem_sortUnique, mem_keys_configTimestamps]
  constructor
  · rintro ⟨name, hname, rfl⟩
    exact isGreatest_latest keys hname
  · intro hgreatest
    have hname : ∃ key, (config.2, key) ∈ keys := ⟨config.1, hgreatest.1⟩
    exact ⟨config.2, hname, Prod.ext ((isGreatest_latest keys hname).unique hgreatest) rfl⟩

theorem timestampConfigs_falls :
    (timestampConfigs (configTimestamps keys)).Pairwise (Falls (· < ·)) := by
  apply emplaceAll_falls
  rw [List.pairwise_map]
  exact (sortUnique_sortedLT _).pairwise

theorem timestampConfigs_nodup :
    ((timestampConfigs (configTimestamps keys)).map Prod.snd).Nodup := by
  have hperm := (emplaceAll_perm ((sortUnique ((configTimestamps keys).map Prod.fst)).map
    fun name => ((posting name (configTimestamps keys)).getLast?.getD 0, name))).map Prod.snd
  rw [List.map_map] at hperm
  have hnames : (sortUnique ((configTimestamps keys).map Prod.fst)).Nodup :=
    (sortUnique_sortedLT _).nodup
  exact hperm.nodup_iff.2 (by simpa [Function.comp_def] using hnames)

end Timestamps

/-! ## All collections -/

/-- Some stored document carries the configuration. -/
def Carried (store : Store) (configuration : String) : Prop :=
  ∃ name oid document, documentAt store name oid = some document ∧
    configuration ∈ documentConfigurations document

/-- Some stored document records that the configuration was assigned at the time. -/
def Recorded (toTimepoint : String → Except Failure ℤ) (store : Store) (configuration : String)
    (time : ℤ) : Prop :=
  ∃ name oid document, documentAt store name oid = some document ∧
    RecordsTime toTimepoint document configuration time

/-- The times of the accepted configurations can be read. -/
def TimesReadable (toTimepoint : String → Except Failure ℤ) (pattern : String) (store : Store) :
    Prop :=
  ∀ name oid document configuration assigned, documentAt store name oid = some document →
    acceptValue pattern configuration → (configuration, assigned) ∈ documentAssignments document →
    ∃ time, toTimepoint assigned = .ok time

section Store

variable {store : Store} (hstore : CoherentStore store) (pattern : String)
  (toTimepoint : String → Except Failure ℤ)
include hstore

theorem exists_mapM_assignedKeys_iff :
    (∃ keys, store.mapM (assignedKeys toTimepoint [("configurations.name", .string pattern)]) =
        .ok keys) ↔
      EntitiesCarried pattern store ∧ TimesReadable toTimepoint pattern store := by
  constructor
  · rintro ⟨lists, hlists⟩
    have heach : ∀ name c, (name, c) ∈ store → _ := fun name c hmem =>
      (assignedKeys_returns_iff (hstore.coherent name c hmem) pattern toTimepoint name).1
        (forall_ok_of_mapM hlists (name, c) hmem)
    constructor
    · intro name oid document hdocument
      obtain ⟨c, hmem, hstored⟩ := exists_mem_of_documentAt hdocument
      exact (heach name c hmem).1 oid document hstored
    · intro name oid document configuration assigned hdocument
      obtain ⟨c, hmem, hstored⟩ := exists_mem_of_documentAt hdocument
      exact (heach name c hmem).2 oid document configuration assigned hstored
  · rintro ⟨hentities, hreadable⟩
    refine exists_mapM_eq_ok fun ⟨name, c⟩ hmem => ?_
    have hdocuments := documentAt_of_mem hstore.names hmem
    refine (assignedKeys_returns_iff (hstore.coherent name c hmem) pattern toTimepoint name).2
      ⟨fun oid document hstored => hentities name oid document (by rw [hdocuments, hstored]),
        fun oid document configuration assigned hstored =>
          hreadable name oid document configuration assigned (by rw [hdocuments, hstored])⟩

theorem mem_flatten_assignedKeys {keys : List (List (String × ℕ))}
    (hkeys : store.mapM (assignedKeys toTimepoint [("configurations.name", .string pattern)]) =
      .ok keys) (configuration : String) (key : ℕ) :
    (configuration, key) ∈ keys.flatten ↔ acceptValue pattern configuration ∧
      ∃ time, Recorded toTimepoint store configuration time ∧ key = timestampKey time := by
  rw [List.mem_flatten]
  constructor
  · rintro ⟨list, hlist, hmem⟩
    obtain ⟨⟨name, c⟩, hentry, hrun⟩ := (mapM_eq_ok_mem hkeys list).1 hlist
    obtain ⟨haccept, oid, document, time, hstored, hrecords, rfl⟩ :=
      (mem_assignedKeys (hstore.coherent name c hentry) pattern toTimepoint hrun
        configuration key).1 hmem
    have hdocument : documentAt store name oid = some document := by
      rw [documentAt_of_mem hstore.names hentry, hstored]
    exact ⟨haccept, time, ⟨name, oid, document, hdocument, hrecords⟩, rfl⟩
  · rintro ⟨haccept, time, ⟨name, oid, document, hdocument, hrecords⟩, rfl⟩
    obtain ⟨c, hentry, hstored⟩ := exists_mem_of_documentAt hdocument
    obtain ⟨list, hrun⟩ := forall_ok_of_mapM hkeys (name, c) hentry
    exact ⟨list, (mapM_eq_ok_mem hkeys list).2 ⟨(name, c), hentry, hrun⟩,
      (mem_assignedKeys (hstore.coherent name c hentry) pattern toTimepoint hrun
        configuration _).2 ⟨haccept, oid, document, time, hstored, hrecords, rfl⟩⟩

end Store

/-! ## The names in order -/

/-- The answer for one name. -/
def foundConfiguration (name : String) : Value :=
  .object [("name", .string name), ("query", compositionSearch name)]

theorem searchedConfiguration_compositionSearch (name : String) :
    searchedConfiguration (compositionSearch name) = .ok name := rfl

/-- Distinct names that were not seen are kept as they are. -/
theorem newConfigurations_run
    {seen names : List String} (hnonempty : "" ∉ names) (hnodup : names.Nodup) :
    newConfigurations seen (names.map compositionSearch) =
      .ok ((names.filter (· ∉ seen)).map foundConfiguration) := by
  induction names generalizing seen with
  | nil => rfl
  | cons name rest ih =>
      rw [List.mem_cons, not_or] at hnonempty
      obtain ⟨hname, hrest⟩ := List.nodup_cons.1 hnodup
      have hconfirm : confirm (decide (name ≠ "")) = .ok () := by
        simp [confirm, Ne.symm hnonempty.1]
      rw [List.map_cons, newConfigurations, searchedConfiguration_compositionSearch]
      simp only [bind, Except.bind, hconfirm]
      by_cases hseen : name ∈ seen
      · rw [if_pos hseen, ih hnonempty.2 hrest]
        simp [hseen]
      · have hkept : rest.filter (· ∉ name :: seen) = rest.filter (· ∉ seen) := by
          refine List.filter_congr fun other hother => ?_
          have hne : other ≠ name := by
            rintro rfl
            exact hname hother
          simp [hne]
        rw [if_neg hseen, ih hnonempty.2 hrest, hkept]
        simp [hseen, foundConfiguration]

/-- The latest time of a configuration in the documents of a store. -/
def Latest (toTimepoint : String → Except Failure ℤ) (store : Store) (configuration : String)
    (time : ℤ) : Prop :=
  IsGreatest {time | Recorded toTimepoint store configuration time} time

/-- The greatest of the seconds under which the times of a configuration are sorted. -/
def LatestKey (toTimepoint : String → Except Failure ℤ) (store : Store) (configuration : String)
    (key : ℕ) : Prop :=
  IsGreatest {key | ∃ time, Recorded toTimepoint store configuration time ∧
    key = timestampKey time} key

/-- The second name has no later time than the first. -/
def NotLater (toTimepoint : String → Except Failure ℤ) (store : Store) (first second : String) :
    Prop :=
  ∀ time time', Latest toTimepoint store first time → Latest toTimepoint store second time' →
    time' ≤ time

/-- The search finds exactly the accepted names that are carried, each once, the latest
first. -/
def FindsInOrder (toTimepoint : String → Except Failure ℤ) (pattern : String) (store : Store) :
    Prop :=
  ∃ names : List String,
    findConfigurations toTimepoint [("configurations.name", .string pattern)] store =
        .ok (names.map foundConfiguration) ∧
      names.Nodup ∧
      (∀ name, name ∈ names ↔
        name ≠ "notprovided" ∧ acceptValue pattern name ∧ Carried store name) ∧
      names.Pairwise (NotLater toTimepoint store)

/-- When the search finds the names in order: the accepted configurations have entities
and times that can be read, and the seconds of two names, or with the same seconds the
alphabet, order them as their times do. -/
structure Orderable (toTimepoint : String → Except Failure ℤ) (pattern : String) (store : Store) :
    Prop where
  entities : EntitiesCarried pattern store
  readable : TimesReadable toTimepoint pattern store
  recorded : ∀ name, name ≠ "notprovided" → acceptValue pattern name → Carried store name →
    ∃ time, Recorded toTimepoint store name time
  ordered : ∀ first second key key', first ≠ "notprovided" → second ≠ "notprovided" →
    acceptValue pattern first → acceptValue pattern second →
    LatestKey toTimepoint store first key → LatestKey toTimepoint store second key' →
    key' < key ∨ key' = key ∧ first < second → NotLater toTimepoint store first second

section Order

variable {store : Store} (hstore : CoherentStore store) (pattern : String)
  (toTimepoint : String → Except Failure ℤ)

theorem Recorded.carried {store : Store} {toTimepoint : String → Except Failure ℤ}
    {configuration : String} {time : ℤ} (h : Recorded toTimepoint store configuration time) :
    Carried store configuration := by
  obtain ⟨name, oid, document, hdocument, assigned, hassigned, -⟩ := h
  exact ⟨name, oid, document, hdocument, carries_of_assigned hassigned⟩

include hstore

theorem Carried.ne_empty {configuration : String} (h : Carried store configuration) :
    configuration ≠ "" := by
  rintro rfl
  obtain ⟨name, oid, document, hdocument, hcarries⟩ := h
  obtain ⟨c, hmem, hstored⟩ := exists_mem_of_documentAt hdocument
  have hc := (hstore.coherent name c hmem).listed
  obtain ⟨ids, hentry, -⟩ := (hc.listed_configurations "" oid).2 ⟨document, hstored, hcarries⟩
  exact hc.wellFormed.values .configurations (List.mem_map.2 ⟨_, hentry, rfl⟩)

variable {keys : List (List (String × ℕ))}
  (hkeys : store.mapM (assignedKeys toTimepoint [("configurations.name", .string pattern)]) =
    .ok keys)
include hkeys

/-- The entries of `timestamp_configs` are the accepted names with their latest seconds. -/
theorem mem_timestampConfigs_iff (config : ℕ × String) :
    config ∈ timestampConfigs (configTimestamps keys.flatten) ↔
      acceptValue pattern config.2 ∧ LatestKey toTimepoint store config.2 config.1 := by
  rw [mem_timestampConfigs]
  by_cases haccept : acceptValue pattern config.2
  · simp only [LatestKey, mem_flatten_assignedKeys hstore pattern toTimepoint hkeys, haccept,
      true_and]
  · simp only [haccept, false_and, iff_false, Bool.false_eq_true]
    intro hgreatest
    exact haccept
      ((mem_flatten_assignedKeys hstore pattern toTimepoint hkeys _ _).1 hgreatest.1).1

/-- The search answers with the entries in their order, without the name that stands for
no configuration. -/
theorem findConfigurations_run :
    findConfigurations toTimepoint [("configurations.name", .string pattern)] store =
      .ok ((((timestampConfigs (configTimestamps keys.flatten)).filter
        fun config => config.2 ≠ "notprovided").map Prod.snd).map foundConfiguration) := by
  have hnonempty : "" ∉ (timestampConfigs (configTimestamps keys.flatten)).map Prod.snd := by
    intro hmem
    obtain ⟨config, hconfig, hname⟩ := List.mem_map.1 hmem
    obtain ⟨-, ⟨time, hrecorded, -⟩, -⟩ :=
      (mem_timestampConfigs_iff hstore pattern toTimepoint hkeys config).1 hconfig
    exact hrecorded.carried.ne_empty hstore hname
  have hrun := @newConfigurations_run ["notprovided"] _ hnonempty
    (timestampConfigs_nodup keys.flatten)
  rw [List.map_map] at hrun
  simp only [findConfigurations, StorageProvider.findConfigurations, hkeys, bind, Except.bind]
  refine hrun.trans ?_
  rw [List.filter_map]
  simp [Function.comp_def]

end Order

theorem foundConfiguration_injective : Function.Injective foundConfiguration := by
  intro name name' h
  simp only [foundConfiguration, Value.object.injEq, List.cons.injEq, Prod.mk.injEq,
    Value.string.injEq, true_and] at h
  exact h.1

/-- The search finds the accepted names in order exactly if they can be ordered. -/
theorem findConfigurations_ordered_iff
    {store : Store} (hstore : CoherentStore store) (pattern : String)
    (toTimepoint : String → Except Failure ℤ) :
    FindsInOrder toTimepoint pattern store ↔ Orderable toTimepoint pattern store := by
  have hreturns := exists_mapM_assignedKeys_iff hstore pattern toTimepoint
  constructor
  · rintro ⟨names, hrun, -, hnames, hordered⟩
    obtain ⟨keys, hkeys⟩ : ∃ keys,
        store.mapM (assignedKeys toTimepoint [("configurations.name", .string pattern)]) =
          .ok keys := by
      simp only [findConfigurations, StorageProvider.findConfigurations, bind_eq_ok] at hrun
      obtain ⟨_, ⟨keys, hkeys, -⟩, -⟩ := hrun
      exact ⟨keys, hkeys⟩
    have hentry := mem_timestampConfigs_iff hstore pattern toTimepoint hkeys
    rw [findConfigurations_run hstore pattern toTimepoint hkeys, Except.ok.injEq] at hrun
    have hsame := foundConfiguration_injective.list_map hrun
    obtain ⟨hentities, hreadable⟩ := hreturns.1 ⟨keys, hkeys⟩
    refine ⟨hentities, hreadable, fun name hne haccept hcarried => ?_, ?_⟩
    · have hmem := (hnames name).2 ⟨hne, haccept, hcarried⟩
      rw [← hsame, List.mem_map] at hmem
      obtain ⟨config, hconfig, rfl⟩ := hmem
      obtain ⟨-, ⟨time, hrecorded, -⟩, -⟩ := (hentry config).1 (List.mem_of_mem_filter hconfig)
      exact ⟨time, hrecorded⟩
    · intro first second key key' hne hne' haccept haccept' hkey hkey' hbefore
      have hfalls := (timestampConfigs_falls keys.flatten).filter
        fun config => decide (config.2 ≠ "notprovided")
      rw [← hsame, pairwise_map_snd_iff hfalls] at hordered
      have hkept : ∀ {name : String} {key : ℕ}, name ≠ "notprovided" → acceptValue pattern name →
          LatestKey toTimepoint store name key →
            (key, name) ∈ (timestampConfigs (configTimestamps keys.flatten)).filter
              fun config => decide (config.2 ≠ "notprovided") := by
        intro name key hne haccept hkey
        exact List.mem_filter.2 ⟨(hentry (key, name)).2 ⟨haccept, hkey⟩, by simpa using hne⟩
      exact hordered (key, first) (hkept hne haccept hkey) (key', second)
        (hkept hne' haccept' hkey') hbefore
  · intro horder
    obtain ⟨keys, hkeys⟩ := hreturns.2 ⟨horder.entities, horder.readable⟩
    have hentry := mem_timestampConfigs_iff hstore pattern toTimepoint hkeys
    have hfalls := (timestampConfigs_falls keys.flatten).filter
      fun config => decide (config.2 ≠ "notprovided")
    refine ⟨_, findConfigurations_run hstore pattern toTimepoint hkeys, ?_, fun name => ?_, ?_⟩
    · exact (timestampConfigs_nodup keys.flatten).sublist (List.filter_sublist.map Prod.snd)
    · simp only [List.mem_map, List.mem_filter, decide_eq_true_eq]
      constructor
      · rintro ⟨config, ⟨hconfig, hne⟩, rfl⟩
        obtain ⟨haccept, ⟨time, hrecorded, -⟩, -⟩ := (hentry config).1 hconfig
        exact ⟨hne, haccept, hrecorded.carried⟩
      · rintro ⟨hne, haccept, hcarried⟩
        obtain ⟨time, hrecorded⟩ := horder.recorded name hne haccept hcarried
        have hgreatest := @isGreatest_latest keys.flatten name
          ⟨timestampKey time, (mem_flatten_assignedKeys hstore pattern toTimepoint hkeys _ _).2
            ⟨haccept, time, hrecorded, rfl⟩⟩
        exact ⟨_, ⟨(mem_timestampConfigs keys.flatten (_, name)).2 hgreatest, hne⟩, rfl⟩
    · rw [pairwise_map_snd_iff hfalls]
      intro config hconfig config' hconfig' hbefore
      rw [List.mem_filter, hentry] at hconfig hconfig'
      exact horder.ordered config.2 config'.2 config.1 config'.1 (by simpa using hconfig.2)
        (by simpa using hconfig'.2) hconfig.1.1 hconfig'.1.1 hconfig.1.2 hconfig'.1.2 hbefore

/-- Read the timestamp of the example time, in milliseconds. -/
def exampleTimepoint (timestamp : String) : Except Failure ℤ :=
  if timestamp = exampleEnvironment.timestamp then .ok 1767225600000
  else .error (.invalidArgument "Failed calling to_timepoint(): format mismatch")

theorem findConfigurations_ordered_iff_assigned :
    FindsInOrder exampleTimepoint "global" assignedStore := by
  have hdocuments : ∀ name oid document, documentAt assignedStore name oid = some document →
      documentConfigurations document = ["global"] ∧ documentEntities document ≠ [] ∧
        ∀ assignment ∈ documentAssignments document,
          assignment = ("global", exampleEnvironment.timestamp) := by
    intro name oid document hdocument
    obtain ⟨c, hmem, hstored⟩ := exists_mem_of_documentAt hdocument
    have hall : ∀ entry ∈ assignedStore, ∀ stored ∈ entry.2.documents,
        documentConfigurations stored.2 = ["global"] ∧ documentEntities stored.2 ≠ [] ∧
          ∀ assignment ∈ documentAssignments stored.2,
            assignment = ("global", exampleEnvironment.timestamp) := by
      decide +kernel
    exact hall _ hmem _ (mem_of_lookup hstored)
  have hglobal : ∀ name, Carried assignedStore name → name = "global" := by
    rintro name ⟨collection, oid, document, hdocument, hcarries⟩
    rw [(hdocuments _ _ _ hdocument).1, List.mem_singleton] at hcarries
    exact hcarries
  have hrecorded : Recorded exampleTimepoint assignedStore "global" 1767225600000 :=
    ⟨_, _, _, documentAt_assignedStore, exampleEnvironment.timestamp, by decide +kernel, rfl⟩
  refine (findConfigurations_ordered_iff assignedStore_coherent "global" exampleTimepoint).2
    ⟨?_, ?_, ?_, ?_⟩
  · exact fun name oid document hdocument _ => (hdocuments _ _ _ hdocument).2.1
  · intro name oid document configuration assigned hdocument _ hassigned
    have hsame := (hdocuments _ _ _ hdocument).2.2 _ hassigned
    rw [Prod.mk.injEq] at hsame
    exact ⟨1767225600000, by simp [exampleTimepoint, hsame.2]⟩
  · intro name _ _ hcarried
    rw [hglobal name hcarried]
    exact ⟨_, hrecorded⟩
  · intro first second key key' _ _ _ _ hkey hkey' hbefore
    obtain ⟨time, htime, -⟩ := hkey.1
    obtain ⟨time', htime', -⟩ := hkey'.1
    rw [hglobal first htime.carried] at hkey hbefore
    rw [hglobal second htime'.carried] at hkey' hbefore
    rw [hkey.unique hkey'] at hbefore
    simp at hbefore

/-- A document of a configuration without an entity stops the search. -/
theorem findConfigurations_stops_without_entity :
    CoherentStore [("run", Collection.empty.replaced
        (insertRequest "1" (plainDocument "v1" ["global"] []) (by decide)))] ∧
      ∀ toTimepoint, ¬ FindsInOrder toTimepoint "global" [("run", Collection.empty.replaced
        (insertRequest "1" (plainDocument "v1" ["global"] []) (by decide)))] := by
  have hindexable : Indexable (plainDocument "v1" ["global"] []) :=
    plainDocument_indexable (by decide) (by decide) (by decide)
  refine ⟨coherentStore_insert hindexable _, ?_⟩
  rintro toTimepoint ⟨names, hrun, -⟩
  have hfind : findAllGlobalConfigurations (Collection.empty.replaced
      (insertRequest "1" (plainDocument "v1" ["global"] []) (by decide))).index
        [("configurations.name", .string "global")] = .error (.outOfRange "1") := by
    decide +kernel
  simp only [findConfigurations, StorageProvider.findConfigurations, assignedKeys,
    List.mapM_cons, hfind, bind, Except.bind] at hrun
  cases hrun

end ArtdaqDatabase
