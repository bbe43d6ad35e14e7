import ArtdaqDatabase.SearchIndex

/-!
# Indexing a document

What a document carries in each indexed attribute, and what `addDocument` and
`removeDocument` do to the tables of the index on a document whose names are
non-empty strings.
-/

namespace ArtdaqDatabase

open OrderedTable SortedUnique InvertedIndex InPlaceUpdate SearchIndex

/-! ## The attributes of a document -/

/-- The entries of an array section, none if the section is not an array. -/
def sectionEntries (key : String) (document : Object) : List Value :=
  match lookup key document with
  | some (.array entries) => entries
  | _ => []

def activeAliasEntries (document : Object) : List Value :=
  match lookup "aliases" document with
  | some (.object aliases) => sectionEntries "active" aliases
  | _ => []

/-- The names that occur in a list of entries. -/
def namesOf (entries : List Value) : List String :=
  entries.filterMap fun entry => (nameOf entry).toOption

/-- The name and the assigned timestamp of a configuration entry. -/
def assignmentOf (config : Value) : Except Failure (String × String) := do
  let configuration ← nameOf config
  let assigned ← config.getObject >>= stringAt "assigned"
  .ok (configuration, assigned)

def assignmentsOf (configs : List Value) : List (String × String) :=
  configs.filterMap fun config => (assignmentOf config).toOption

def documentVersions (document : Object) : List String :=
  match lookup "version" document with
  | some (.string version) => [version]
  | _ => []

def documentConfigurations (document : Object) : List String :=
  namesOf (sectionEntries "configurations" document)

def documentAssignments (document : Object) : List (String × String) :=
  assignmentsOf (sectionEntries "configurations" document)

def documentEntities (document : Object) : List String :=
  namesOf (sectionEntries "entities" document)

def documentAliases (document : Object) : List String :=
  namesOf (activeAliasEntries document)

def documentRuns (document : Object) : List String :=
  namesOf (sectionEntries "runs" document)

/-- Every entry has a non-empty name. -/
def EntriesNamed (entries : List Value) : Prop :=
  ∀ entry ∈ entries, ∃ name, nameOf entry = .ok name ∧ name ≠ ""

/-- Every configuration entry has a non-empty name and timestamp. -/
def EntriesAssigned (configs : List Value) : Prop :=
  ∀ config ∈ configs, ∃ name assigned,
    assignmentOf config = .ok (name, assigned) ∧ name ≠ "" ∧ assigned ≠ ""

/-- The indexed sections of a document, whose names can all be indexed. -/
structure IndexedSections (document : Object) where
  version : String
  configurations : List Value
  entities : List Value
  aliases : Object
  active : List Value
  runs : List Value
  version_lookup : lookup "version" document = some (.string version)
  configurations_lookup :
    lookup "configurations" document = some (.array configurations)
  entities_lookup : lookup "entities" document = some (.array entities)
  aliases_lookup : lookup "aliases" document = some (.object aliases)
  active_lookup : lookup "active" aliases = some (.array active)
  runs_lookup : lookup "runs" document = some (.array runs)
  version_ne : version ≠ ""
  configurations_assigned : EntriesAssigned configurations
  entities_named : EntriesNamed entities
  active_named : EntriesNamed active
  runs_named : EntriesNamed runs

/-- All indexed names of a document are there and are non-empty strings. -/
def Indexable (document : Object) : Prop :=
  Nonempty (IndexedSections document)

/-! ## Passes over a list -/

theorem updateTable_run
    {ouid value : String} (houid : ouid ≠ "") (hvalue : value ≠ "")
    (rewrite : SearchIndex → SearchIndex) (index : SearchIndex) :
    updateTable ouid value rewrite index = .ok () (rewrite index) := by
  simp [updateTable, confirm, houid, hvalue, lift]
  rfl

theorem foldl_namesOf
    {entries : List Value} (hnamed : EntriesNamed entries)
    (effect : String → SearchIndex → SearchIndex) (index : SearchIndex) :
    entries.foldl
        (fun index entry => ((nameOf entry).toOption.elim id effect) index) index =
      (namesOf entries).foldl (fun index name => effect name index) index := by
  induction entries generalizing index with
  | nil => rfl
  | cons entry entries ih =>
      obtain ⟨name, hname, -⟩ := hnamed entry (by simp)
      have hrest : EntriesNamed entries :=
        fun e he => hnamed e (List.mem_cons_of_mem _ he)
      simp only [namesOf, List.filterMap_cons, hname, Except.toOption, List.foldl_cons,
        Option.elim_some]
      exact ih hrest _

theorem forEachName_run
    {entries : List Value} {act : String → IndexM Unit}
    (effect : String → SearchIndex → SearchIndex) (hnamed : EntriesNamed entries)
    (hact : ∀ name, name ≠ "" → ∀ index, act name index = .ok () (effect name index))
    (index : SearchIndex) :
    forEachName entries act index =
      .ok () ((namesOf entries).foldl (fun index name => effect name index) index) := by
  rw [← foldl_namesOf hnamed, forEachName]
  apply forM_run
    (fun entry index => ((nameOf entry).toOption.elim id effect) index)
  intro entry hentry index
  obtain ⟨name, hname, hne⟩ := hnamed entry hentry
  rw [hname, bind_run (lift_ok name index), hact name hne]
  rfl

theorem foldl_assignmentsOf
    {configs : List Value} (hassigned : EntriesAssigned configs)
    (effect : String × String → SearchIndex → SearchIndex) (index : SearchIndex) :
    configs.foldl
        (fun index config => ((assignmentOf config).toOption.elim id effect) index) index =
      (assignmentsOf configs).foldl (fun index p => effect p index) index := by
  induction configs generalizing index with
  | nil => rfl
  | cons config configs ih =>
      obtain ⟨name, assigned, hconfig, -⟩ := hassigned config (by simp)
      have hrest : EntriesAssigned configs :=
        fun e he => hassigned e (List.mem_cons_of_mem _ he)
      simp only [assignmentsOf, List.filterMap_cons, hconfig, Except.toOption,
        List.foldl_cons, Option.elim_some]
      exact ih hrest _

theorem assignmentOf_eq_ok {config : Value} {name assigned : String} :
    assignmentOf config = .ok (name, assigned) ↔
      nameOf config = .ok name ∧ config.getObject >>= stringAt "assigned" = .ok assigned := by
  unfold assignmentOf
  cases nameOf config with
  | error e => simp [bind, Except.bind]
  | ok n =>
      cases config.getObject >>= stringAt "assigned" <;>
        simp [bind, Except.bind]

theorem forEachConfiguration_run
    {configs : List Value} {act actAssigned : String → String → IndexM Unit}
    {ouid : String} (effect effectAssigned : String → String → SearchIndex → SearchIndex)
    (hassigned : EntriesAssigned configs)
    (hact : ∀ name, name ≠ "" → ∀ index,
      act ouid name index = .ok () (effect ouid name index))
    (hactAssigned : ∀ name assigned, name ≠ "" → assigned ≠ "" → ∀ index,
      actAssigned assigned name index = .ok () (effectAssigned assigned name index))
    (index : SearchIndex) :
    forEachConfiguration configs act actAssigned ouid index =
      .ok () ((assignmentsOf configs).foldl
        (fun index p => effectAssigned p.2 p.1 (effect ouid p.1 index)) index) := by
  rw [← foldl_assignmentsOf hassigned
    (fun p index => effectAssigned p.2 p.1 (effect ouid p.1 index)), forEachConfiguration]
  apply forM_run
    (fun config index => ((assignmentOf config).toOption.elim id
      (fun p index => effectAssigned p.2 p.1 (effect ouid p.1 index))) index)
  intro config hconfig index
  obtain ⟨name, assigned, hpair, hname, hts⟩ := hassigned config hconfig
  obtain ⟨hnameOf, htsOf⟩ := assignmentOf_eq_ok.1 hpair
  rw [hpair, hnameOf, bind_run (lift_ok name index), bind_run (hact name hname index),
    htsOf, bind_run (lift_ok assigned _), hactAssigned name assigned hname hts]
  rfl

theorem tryIgnore_run
    {body : IndexM Unit} {index index' : SearchIndex}
    (hbody : body index = .ok () index') :
    tryIgnore body index = .ok () index' :=
  tryCatch_run hbody

/-! ## Documents whose names can be indexed -/

/-- The index after `addDocument` on an indexable document. -/
def indexDocument (document : Object) (ouid : String) (index : SearchIndex) : SearchIndex where
  ouid := sortUnique (index.ouid ++ [ouid])
  version := (documentVersions document).foldl
    (fun t v => insertPosting v ouid t) index.version
  configurations := (documentConfigurations document).foldl
    (fun t v => insertPosting v ouid t) index.configurations
  entities := (documentEntities document).foldl
    (fun t v => insertPosting v ouid t) index.entities
  versionAliases := (documentAliases document).foldl
    (fun t v => insertPosting v ouid t) index.versionAliases
  runs := (documentRuns document).foldl
    (fun t v => insertPosting v ouid t) index.runs
  configurationsAssigned := (documentAssignments document).foldl
    (fun t p => insertPosting p.1 p.2 t) index.configurationsAssigned

/-- The index after `removeDocument` on an indexable document: the tables of the
entities and of the aliases are as before. -/
def unindexDocument
    (document : Object) (ouid : String) (index : SearchIndex) : SearchIndex where
  ouid := index.ouid.filter (· ≠ ouid)
  version := (documentVersions document).foldl
    (fun t v => dropPosting v ouid t) index.version
  configurations := (documentConfigurations document ++ documentAliases document).foldl
    (fun t v => dropPosting v ouid t) index.configurations
  entities := index.entities
  versionAliases := index.versionAliases
  runs := (documentRuns document).foldl
    (fun t v => dropPosting v ouid t) index.runs
  configurationsAssigned := (documentAssignments document).foldl
    (fun t p => dropPosting p.1 p.2 t) index.configurationsAssigned

/-- Rewriting one table repeatedly is one rewrite of that table. -/
theorem foldl_atTable
    {α : Type} (atTable : (Postings → Postings) → SearchIndex → SearchIndex)
    (hid : ∀ index, atTable id index = index)
    (hcomp : ∀ f g index, atTable f (atTable g index) = atTable (f ∘ g) index)
    (rewrite : α → Postings → Postings) (xs : List α) (index : SearchIndex) :
    xs.foldl (fun index x => atTable (rewrite x) index) index =
      atTable (fun t => xs.foldl (fun t x => rewrite x t) t) index := by
  induction xs generalizing index with
  | nil => exact (hid index).symm
  | cons x xs ih =>
      rw [List.foldl_cons, ih, hcomp]
      rfl

/-- The pass over the configurations rewrites two tables independently. -/
theorem foldl_overAssigned_overConfigurations
    {α : Type} (rewrite rewriteAssigned : α → Postings → Postings)
    (xs : List α) (index : SearchIndex) :
    xs.foldl
        (fun index x =>
          overConfigurationsAssigned (rewriteAssigned x)
            (overConfigurations (rewrite x) index)) index =
      overConfigurationsAssigned (fun t => xs.foldl (fun t x => rewriteAssigned x t) t)
        (overConfigurations (fun t => xs.foldl (fun t x => rewrite x t) t) index) := by
  induction xs generalizing index with
  | nil => rfl
  | cons x xs ih =>
      rw [List.foldl_cons, ih]
      rfl

theorem namesOf_eq_map_assignmentsOf
    {configs : List Value} (hassigned : EntriesAssigned configs) :
    namesOf configs = (assignmentsOf configs).map Prod.fst := by
  induction configs with
  | nil => rfl
  | cons config configs ih =>
      obtain ⟨name, assigned, hconfig, -⟩ := hassigned config (by simp)
      have hname := (assignmentOf_eq_ok.1 hconfig).1
      have hrest := ih fun e he => hassigned e (List.mem_cons_of_mem _ he)
      rw [namesOf, List.filterMap_cons, hname, assignmentsOf, List.filterMap_cons, hconfig]
      exact congrArg (name :: ·) hrest

namespace IndexedSections

variable {document : Object} (sections : IndexedSections document)

include sections

theorem documentVersions_eq : documentVersions document = [sections.version] := by
  simp [documentVersions, sections.version_lookup]

theorem documentConfigurations_eq :
    documentConfigurations document =
      (assignmentsOf sections.configurations).map Prod.fst := by
  rw [documentConfigurations, sectionEntries, sections.configurations_lookup]
  exact namesOf_eq_map_assignmentsOf sections.configurations_assigned

theorem documentAssignments_eq :
    documentAssignments document = assignmentsOf sections.configurations := by
  rw [documentAssignments, sectionEntries, sections.configurations_lookup]

theorem documentEntities_eq :
    documentEntities document = namesOf sections.entities := by
  rw [documentEntities, sectionEntries, sections.entities_lookup]

theorem documentAliases_eq :
    documentAliases document = namesOf sections.active := by
  have hactive : sectionEntries "active" sections.aliases = sections.active := by
    rw [sectionEntries, sections.active_lookup]
  rw [documentAliases, activeAliasEntries, sections.aliases_lookup]
  exact congrArg namesOf hactive

theorem documentRuns_eq : documentRuns document = namesOf sections.runs := by
  rw [documentRuns, sectionEntries, sections.runs_lookup]

theorem stringAt_version : stringAt "version" document = .ok sections.version :=
  stringAt_eq_ok.2 sections.version_lookup

theorem arrayAt_configurations :
    arrayAt "configurations" document = .ok sections.configurations :=
  arrayAt_eq_ok.2 sections.configurations_lookup

theorem arrayAt_entities : arrayAt "entities" document = .ok sections.entities :=
  arrayAt_eq_ok.2 sections.entities_lookup

theorem arrayAt_active :
    objectAt "aliases" document >>= arrayAt "active" = .ok sections.active :=
  bind_eq_ok.2 ⟨sections.aliases, objectAt_eq_ok.2 sections.aliases_lookup,
    arrayAt_eq_ok.2 sections.active_lookup⟩

theorem arrayAt_runs : arrayAt "runs" document = .ok sections.runs :=
  arrayAt_eq_ok.2 sections.runs_lookup

end IndexedSections

theorem addDocument_run
    {document : Object} {ouid : String}
    (hdocument : Indexable document) (houid : ouid ≠ "") (index : SearchIndex) :
    addDocument document ouid index = .ok true (indexDocument document ouid index) := by
  obtain ⟨sections⟩ := hdocument
  have hconfirm : confirm (decide (ouid ≠ "")) = .ok () := by
    simp [houid]
  have hid : addId ouid index =
      .ok () (overOuid (fun ouids => sortUnique (ouids ++ [ouid])) index) := by
    rw [addId, hconfirm, bind_run (lift_ok () index)]
    rfl
  have hversion : ∀ index, addVersion ouid sections.version index = _ := fun index =>
    updateTable_run houid sections.version_ne _ index
  have hconfigs : ∀ index, forEachConfiguration sections.configurations addConfiguration
      addConfigurationAssigned ouid index = _ := fun index =>
    forEachConfiguration_run
      (fun ouid name => overConfigurations (insertPosting name ouid))
      (fun ts name => overConfigurationsAssigned (insertPosting name ts))
      sections.configurations_assigned
      (fun name hname index => updateTable_run houid hname _ index)
      (fun name ts hname hts index => updateTable_run hts hname _ index) index
  have hentities : ∀ index, forEachName sections.entities (addEntity ouid) index = _ :=
    fun index => forEachName_run
      (fun name => overEntities (insertPosting name ouid))
      sections.entities_named
      (fun name hname index => updateTable_run houid hname _ index) index
  have haliases : ∀ index, forEachName sections.active (addVersionAlias ouid) index = _ :=
    fun index => forEachName_run
      (fun name => overVersionAliases (insertPosting name ouid))
      sections.active_named
      (fun name hname index => updateTable_run houid hname _ index) index
  have hruns : ∀ index, forEachName sections.runs (addRun ouid) index = _ :=
    fun index => forEachName_run
      (fun name => overRuns (insertPosting name ouid))
      sections.runs_named
      (fun name hname index => updateTable_run houid hname _ index) index
  rw [addDocument, hconfirm, bind_run (lift_ok () index)]
  apply tryCatch_run
  rw [bind_run hid, sections.stringAt_version, bind_run (lift_ok sections.version _),
    bind_run (hversion _), sections.arrayAt_configurations,
    bind_run (lift_ok sections.configurations _), bind_run (hconfigs _),
    sections.arrayAt_entities,
    bind_run (tryIgnore_run ((bind_run (lift_ok sections.entities _)).trans (hentities _))),
    sections.arrayAt_active,
    bind_run (tryIgnore_run ((bind_run (lift_ok sections.active _)).trans (haliases _))),
    sections.arrayAt_runs,
    bind_run (tryIgnore_run ((bind_run (lift_ok sections.runs _)).trans (hruns _))),
    foldl_overAssigned_overConfigurations
      (fun p : String × String => insertPosting p.1 ouid) (fun p => insertPosting p.1 p.2),
    foldl_atTable overEntities (fun _ => rfl) (fun _ _ _ => rfl)
      (fun name => insertPosting name ouid),
    foldl_atTable overVersionAliases (fun _ => rfl) (fun _ _ _ => rfl)
      (fun name => insertPosting name ouid),
    foldl_atTable overRuns (fun _ => rfl) (fun _ _ _ => rfl)
      (fun name => insertPosting name ouid)]
  simp only [indexDocument, sections.documentVersions_eq,
    sections.documentConfigurations_eq, sections.documentAssignments_eq,
    sections.documentEntities_eq, sections.documentAliases_eq, sections.documentRuns_eq,
    List.foldl_map, List.foldl_cons, List.foldl_nil]
  rfl

theorem removeDocument_run
    {document : Object} {ouid : String}
    (hdocument : Indexable document) (houid : ouid ≠ "") (index : SearchIndex) :
    removeDocument document ouid index = .ok true (unindexDocument document ouid index) := by
  obtain ⟨sections⟩ := hdocument
  have hconfirm : confirm (decide (ouid ≠ "")) = .ok () := by
    simp [houid]
  have hid : removeId ouid index =
      .ok () (overOuid (fun ouids => ouids.filter (· ≠ ouid)) index) := by
    rw [removeId, hconfirm, bind_run (lift_ok () index)]
    rfl
  have hversion : ∀ index, removeVersion ouid sections.version index = _ := fun index =>
    updateTable_run houid sections.version_ne _ index
  have hconfigs : ∀ index, forEachConfiguration sections.configurations removeConfiguration
      removeConfigurationAssigned ouid index = _ := fun index =>
    forEachConfiguration_run
      (fun ouid name => overConfigurations (dropPosting name ouid))
      (fun ts name => overConfigurationsAssigned (dropPosting name ts))
      sections.configurations_assigned
      (fun name hname index => updateTable_run houid hname _ index)
      (fun name ts hname hts index => updateTable_run hts hname _ index) index
  have haliases : ∀ index,
      forEachName sections.active (removeConfiguration ouid) index = _ :=
    fun index => forEachName_run
      (fun name => overConfigurations (dropPosting name ouid))
      sections.active_named
      (fun name hname index => updateTable_run houid hname _ index) index
  have hruns : ∀ index, forEachName sections.runs (removeRun ouid) index = _ :=
    fun index => forEachName_run
      (fun name => overRuns (dropPosting name ouid))
      sections.runs_named
      (fun name hname index => updateTable_run houid hname _ index) index
  rw [removeDocument, hconfirm, bind_run (lift_ok () index)]
  apply tryCatch_run
  rw [bind_run hid, sections.stringAt_version, bind_run (lift_ok sections.version _),
    bind_run (hversion _), sections.arrayAt_configurations,
    bind_run (lift_ok sections.configurations _), bind_run (hconfigs _),
    sections.arrayAt_active, bind_run (lift_ok sections.active _), bind_run (haliases _),
    sections.arrayAt_runs, bind_run (lift_ok sections.runs _), bind_run (hruns _),
    foldl_overAssigned_overConfigurations
      (fun p : String × String => dropPosting p.1 ouid) (fun p => dropPosting p.1 p.2),
    foldl_atTable overConfigurations (fun _ => rfl) (fun _ _ _ => rfl)
      (fun name => dropPosting name ouid),
    foldl_atTable overRuns (fun _ => rfl) (fun _ _ _ => rfl)
      (fun name => dropPosting name ouid)]
  simp only [unindexDocument, sections.documentVersions_eq,
    sections.documentConfigurations_eq, sections.documentAssignments_eq,
    sections.documentAliases_eq, sections.documentRuns_eq, List.foldl_append,
    List.foldl_map, List.foldl_cons, List.foldl_nil]
  rfl

/-! ## The version table of any document -/

/-- The ids and the versions, which are updated before anything can fail. -/
def versionView (index : SearchIndex) : List String × Postings :=
  (index.ouid, index.version)

theorem keeps_updateTable
    {γ : Type} {view : SearchIndex → γ} {rewrite : SearchIndex → SearchIndex}
    (hrewrite : ∀ index, view (rewrite index) = view index) (ouid value : String) :
    Keeps view (updateTable ouid value rewrite) :=
  (Keeps.lift _).bind fun _ => (Keeps.lift _).bind fun _ => Keeps.write hrewrite

theorem keeps_forEachName
    {γ : Type} {view : SearchIndex → γ} {act : String → IndexM Unit}
    (hact : ∀ name, Keeps view (act name)) (entries : List Value) :
    Keeps view (forEachName entries act) :=
  Keeps.forM fun _ _ => (Keeps.lift _).bind hact

theorem keeps_forEachConfiguration
    {γ : Type} {view : SearchIndex → γ} {act actAssigned : String → String → IndexM Unit}
    (hact : ∀ ouid name, Keeps view (act ouid name))
    (hactAssigned : ∀ assigned name, Keeps view (actAssigned assigned name))
    (configs : List Value) (ouid : String) :
    Keeps view (forEachConfiguration configs act actAssigned ouid) :=
  Keeps.forM fun _ _ => (Keeps.lift _).bind fun _ => (hact _ _).bind fun _ =>
    (Keeps.lift _).bind fun _ => hactAssigned _ _

theorem keeps_tryIgnore
    {γ : Type} {view : SearchIndex → γ} {body : IndexM Unit} (hbody : Keeps view body) :
    Keeps view (tryIgnore body) :=
  Keeps.tryCatch hbody fun _ _ => rfl

/-- However far `addDocument` gets, the id and the version are listed. -/
theorem versionView_addDocument
    {document : Object} {version ouid : String}
    (hversion : lookup "version" document = some (.string version)) (hne : version ≠ "")
    (houid : ouid ≠ "") (index : SearchIndex) :
    versionView (after (addDocument document ouid) index) =
      (sortUnique (index.ouid ++ [ouid]), insertPosting version ouid index.version) := by
  have hconfirm : confirm (decide (ouid ≠ "")) = .ok () := by
    simp [houid]
  have hid : addId ouid index =
      .ok () (overOuid (fun ouids => sortUnique (ouids ++ [ouid])) index) := by
    rw [addId, hconfirm, bind_run (lift_ok () index)]
    rfl
  have haddVersion := fun index =>
    updateTable_run houid hne (overVersion (insertPosting version ouid)) index
  rw [addDocument, hconfirm, after_bind (lift_ok () index), after_tryCatch fun _ _ => rfl,
    after_bind hid, stringAt_eq_ok.2 hversion, after_bind (lift_ok version _), addVersion,
    after_bind (haddVersion _)]
  have hrest : Keeps versionView (do
      let configs ← lift (arrayAt "configurations" document)
      forEachConfiguration configs addConfiguration addConfigurationAssigned ouid
      tryIgnore do
        let entities ← lift (arrayAt "entities" document)
        forEachName entities (addEntity ouid)
      tryIgnore do
        let aliases ← lift (objectAt "aliases" document >>= arrayAt "active")
        forEachName aliases (addVersionAlias ouid)
      tryIgnore do
        let runs ← lift (arrayAt "runs" document)
        forEachName runs (addRun ouid)
      return true) := by
    refine (Keeps.lift _).bind fun configs =>
      (keeps_forEachConfiguration ?_ ?_ configs ouid).bind fun _ =>
      (keeps_tryIgnore ((Keeps.lift _).bind fun _ => keeps_forEachName ?_ _)).bind fun _ =>
      (keeps_tryIgnore ((Keeps.lift _).bind fun _ => keeps_forEachName ?_ _)).bind fun _ =>
      (keeps_tryIgnore ((Keeps.lift _).bind fun _ => keeps_forEachName ?_ _)).bind fun _ =>
      Keeps.pure _
    · exact fun _ _ => keeps_updateTable (by intro; rfl) _ _
    · exact fun _ _ => keeps_updateTable (by intro; rfl) _ _
    · exact fun _ => keeps_updateTable (by intro; rfl) _ _
    · exact fun _ => keeps_updateTable (by intro; rfl) _ _
    · exact fun _ => keeps_updateTable (by intro; rfl) _ _
  exact hrest _

/-- However far `removeDocument` gets, the id and the version are struck. -/
theorem versionView_removeDocument
    {document : Object} {version ouid : String}
    (hversion : lookup "version" document = some (.string version)) (hne : version ≠ "")
    (houid : ouid ≠ "") (index : SearchIndex) :
    versionView (after (removeDocument document ouid) index) =
      (index.ouid.filter (· ≠ ouid), dropPosting version ouid index.version) := by
  have hconfirm : confirm (decide (ouid ≠ "")) = .ok () := by
    simp [houid]
  have hid : removeId ouid index =
      .ok () (overOuid (fun ouids => ouids.filter (· ≠ ouid)) index) := by
    rw [removeId, hconfirm, bind_run (lift_ok () index)]
    rfl
  have hremoveVersion := fun index =>
    updateTable_run houid hne (overVersion (dropPosting version ouid)) index
  rw [removeDocument, hconfirm, after_bind (lift_ok () index), after_tryCatch fun _ _ => rfl,
    after_bind hid, stringAt_eq_ok.2 hversion, after_bind (lift_ok version _), removeVersion,
    after_bind (hremoveVersion _)]
  have hrest : Keeps versionView (do
      let configs ← lift (arrayAt "configurations" document)
      forEachConfiguration configs removeConfiguration removeConfigurationAssigned ouid
      let aliases ← lift (objectAt "aliases" document >>= arrayAt "active")
      forEachName aliases (removeConfiguration ouid)
      let runs ← lift (arrayAt "runs" document)
      forEachName runs (removeRun ouid)
      return true) := by
    refine (Keeps.lift _).bind fun configs =>
      (keeps_forEachConfiguration ?_ ?_ configs ouid).bind fun _ =>
      (Keeps.lift _).bind fun _ => (keeps_forEachName ?_ _).bind fun _ =>
      (Keeps.lift _).bind fun _ => (keeps_forEachName ?_ _).bind fun _ => Keeps.pure _
    · exact fun _ _ => keeps_updateTable (by intro; rfl) _ _
    · exact fun _ _ => keeps_updateTable (by intro; rfl) _ _
    · exact fun _ => keeps_updateTable (by intro; rfl) _ _
    · exact fun _ => keeps_updateTable (by intro; rfl) _ _
  exact hrest _

/-! ## The entity table of any document -/

/-- The id gets listed under some entities, and nothing else happens to the table. -/
def EntitiesGrow (ouid : String) (index index' : SearchIndex) : Prop :=
  ∃ names : List String,
    index'.entities = names.foldl (fun t v => insertPosting v ouid t) index.entities

instance (ouid : String) : Std.Refl (EntitiesGrow ouid) :=
  ⟨fun _ => ⟨[], rfl⟩⟩

instance (ouid : String) : IsTrans SearchIndex (EntitiesGrow ouid) :=
  ⟨fun _ _ _ ⟨names, hnames⟩ ⟨names', hnames'⟩ =>
    ⟨names ++ names', by rw [hnames', hnames, List.foldl_append]⟩⟩

theorem entitiesGrow_of_keeps
    {α : Type} {x : IndexM α} (hx : Keeps SearchIndex.entities x) (ouid : String) :
    Moves (EntitiesGrow ouid) x :=
  fun index => ⟨[], hx index⟩

theorem entitiesGrow_addEntity (ouid entity : String) :
    Moves (EntitiesGrow ouid) (addEntity ouid entity) :=
  Moves.bind (Moves.lift _) fun _ => Moves.bind (Moves.lift _) fun _ =>
    fun _ => ⟨[entity], rfl⟩

/-- However far `addDocument` gets, it only lists the id under entities. -/
theorem entitiesGrow_addDocument (document : Object) (ouid : String) :
    Moves (EntitiesGrow ouid) (addDocument document ouid) := by
  have hkeeps : ∀ {rewrite : SearchIndex → SearchIndex} (value key : String),
      (∀ index, (rewrite index).entities = index.entities) →
      Moves (EntitiesGrow ouid) (updateTable value key rewrite) :=
    fun value key hrewrite =>
      entitiesGrow_of_keeps (keeps_updateTable hrewrite value key) ouid
  have hid : Moves (EntitiesGrow ouid) (addId ouid) :=
    Moves.bind (Moves.lift _) fun _ => fun _ => ⟨[], rfl⟩
  have hignore : ∀ {body : IndexM Unit}, Moves (EntitiesGrow ouid) body →
      Moves (EntitiesGrow ouid) (tryIgnore body) :=
    fun hbody => Moves.tryCatch hbody fun _ _ => rfl
  have hpass : ∀ {act : String → IndexM Unit} (entries : List Value),
      (∀ name, Moves (EntitiesGrow ouid) (act name)) →
      Moves (EntitiesGrow ouid) (forEachName entries act) :=
    fun entries hact => Moves.forM fun _ _ => Moves.bind (Moves.lift _) hact
  refine Moves.bind (Moves.lift _) fun _ => Moves.tryCatch ?_ fun _ _ => rfl
  refine Moves.bind hid fun _ => Moves.bind (Moves.lift _) fun version =>
    Moves.bind (hkeeps ouid version fun _ => rfl) fun _ => Moves.bind (Moves.lift _) fun configs =>
    Moves.bind (Moves.forM fun config _ => ?_) fun _ => Moves.bind (hignore ?_) fun _ =>
    Moves.bind (hignore ?_) fun _ => Moves.bind (hignore ?_) fun _ => Moves.pure _
  · exact Moves.bind (Moves.lift _) fun name => Moves.bind (hkeeps ouid name fun _ => rfl) fun _ =>
      Moves.bind (Moves.lift _) fun assigned => hkeeps assigned name fun _ => rfl
  · exact Moves.bind (Moves.lift _) fun entries => hpass entries (entitiesGrow_addEntity ouid)
  · exact Moves.bind (Moves.lift _) fun entries => hpass entries fun name =>
      hkeeps ouid name fun _ => rfl
  · exact Moves.bind (Moves.lift _) fun entries => hpass entries fun name =>
      hkeeps ouid name fun _ => rfl

/-- `removeDocument` does not visit the entities. -/
theorem keeps_entities_removeDocument (document : Object) (ouid : String) :
    Keeps SearchIndex.entities (removeDocument document ouid) := by
  have hid : Keeps SearchIndex.entities (removeId ouid) :=
    (Keeps.lift _).bind fun _ => Keeps.write fun _ => rfl
  refine (Keeps.lift _).bind fun _ => Keeps.tryCatch ?_ fun _ _ => rfl
  refine hid.bind fun _ => (Keeps.lift _).bind fun version =>
    Keeps.bind ?_ fun _ => (Keeps.lift _).bind fun configs =>
    (keeps_forEachConfiguration ?_ ?_ configs ouid).bind fun _ =>
    (Keeps.lift _).bind fun _ => (keeps_forEachName ?_ _).bind fun _ =>
    (Keeps.lift _).bind fun _ => (keeps_forEachName ?_ _).bind fun _ => Keeps.pure _
  · exact keeps_updateTable (by intro; rfl) _ _
  · exact fun _ _ => keeps_updateTable (by intro; rfl) _ _
  · exact fun _ _ => keeps_updateTable (by intro; rfl) _ _
  · exact fun _ => keeps_updateTable (by intro; rfl) _ _
  · exact fun _ => keeps_updateTable (by intro; rfl) _ _

/-- A failing pass is dropped: `addDocument` throws only without an id. -/
theorem addDocument_returns
    (document : Object) {ouid : String} (houid : ouid ≠ "") (index : SearchIndex) :
    ∃ b, addDocument document ouid index = .ok b (after (addDocument document ouid) index) := by
  have hconfirm : confirm (decide (ouid ≠ "")) = .ok () := by
    simp [houid]
  rw [addDocument, hconfirm, bind_run (lift_ok () index), after_bind (lift_ok () index)]
  exact tryCatch_returns (fun _ _ => ⟨false, rfl⟩) index

theorem removeDocument_returns
    (document : Object) {ouid : String} (houid : ouid ≠ "") (index : SearchIndex) :
    ∃ b, removeDocument document ouid index =
      .ok b (after (removeDocument document ouid) index) := by
  have hconfirm : confirm (decide (ouid ≠ "")) = .ok () := by
    simp [houid]
  rw [removeDocument, hconfirm, bind_run (lift_ok () index), after_bind (lift_ok () index)]
  exact tryCatch_returns (fun _ _ => ⟨false, rfl⟩) index

end ArtdaqDatabase
