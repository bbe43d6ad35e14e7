import ArtdaqDatabase.CommutingUpdates
import ArtdaqDatabase.IndexTables
import ArtdaqDatabase.InsertUniqueness

/-!
# Rebuilding the index

`_rebuild` starts from an empty index and adds the files of the directory in the
order in which the system lists them.  `addDocument` decides from the document
alone what it adds, also where it gives up half way, and additions commute, so the
rebuilt tables are those that the inserts maintained.
-/

namespace ArtdaqDatabase

open OrderedTable SortedUnique InvertedIndex InPlaceUpdate GuardedRun CommutingUpdates

/-! ## Equal tables -/

namespace SearchIndex

/-- The same ids, and the same list under each value of each table. -/
structure SameTables (index index' : SearchIndex) : Prop where
  ouid : index.ouid = index'.ouid
  table : ∀ column value, lookup value (index.table column) = lookup value (index'.table column)

theorem sameTables_equivalence : Equivalence SameTables where
  refl _ := ⟨rfl, fun _ _ => rfl⟩
  symm h := ⟨h.ouid.symm, fun column value => (h.table column value).symm⟩
  trans h h' :=
    ⟨h.ouid.trans h'.ouid, fun column value => (h.table column value).trans (h'.table column value)⟩

end SearchIndex

open SearchIndex

/-! ## Insertions -/

/-- What one of the `_add` members inserts. -/
inductive Insertion where
  | id (ouid : String)
  | posting (column : Column) (value ouid : String)

def Insertion.apply : Insertion → SearchIndex → SearchIndex
  | .id ouid => overOuid fun ouids => sortUnique (ouids ++ [ouid])
  | .posting column value ouid => overTable (insertPosting value ouid) column

theorem lookup_insertPosting (value other ouid : String) (t : Postings) :
    lookup other (insertPosting value ouid t) =
      if other = value then some (sortUnique ((lookup value t).getD [] ++ [ouid]))
      else lookup other t := by
  rw [insertPosting, lookup_set]
  rfl

theorem lookup_apply_posting
    (column other : Column) (value name ouid : String) (index : SearchIndex) :
    lookup name ((Insertion.apply (.posting column value ouid) index).table other) =
      if other = column ∧ name = value then
        some (sortUnique ((lookup value (index.table column)).getD [] ++ [ouid]))
      else lookup name (index.table other) := by
  rw [Insertion.apply, table_overTable]
  by_cases hcolumn : other = column
  · subst hcolumn
    simp [lookup_insertPosting]
  · simp [hcolumn]

@[simp]
theorem ouid_apply_posting (column : Column) (value ouid : String) (index : SearchIndex) :
    (Insertion.apply (.posting column value ouid) index).ouid = index.ouid :=
  ouid_overTable _ column index

@[simp]
theorem table_apply_id (ouid : String) (index : SearchIndex) :
    (Insertion.apply (.id ouid) index).table = index.table :=
  table_overOuid _ index

theorem sortUnique_insert_comm (ids : List String) (ouid ouid' : String) :
    sortUnique (sortUnique (ids ++ [ouid]) ++ [ouid']) =
      sortUnique (sortUnique (ids ++ [ouid']) ++ [ouid]) := by
  apply sortUnique_congr
  intro id
  simp only [List.mem_append, mem_sortUnique, List.mem_singleton]
  tauto

theorem sortUnique_insert_twice (ids : List String) (ouid : String) :
    sortUnique (sortUnique (ids ++ [ouid]) ++ [ouid]) = sortUnique (ids ++ [ouid]) := by
  apply sortUnique_congr
  intro id
  simp only [List.mem_append, mem_sortUnique, List.mem_singleton]
  tauto

theorem insertions_settle : Settles SameTables Insertion.apply where
  equivalence := sameTables_equivalence
  congr op index index' h := by
    cases op with
    | id ouid =>
        refine ⟨congrArg (fun ouids => sortUnique (ouids ++ [ouid])) h.ouid, fun other name => ?_⟩
        rw [table_apply_id, table_apply_id]
        exact h.table other name
    | posting column value ouid =>
        refine ⟨by simpa using h.ouid, fun other name => ?_⟩
        rw [lookup_apply_posting, lookup_apply_posting, h.table, h.table]
  comm op op' index := by
    cases op with
    | id ouid =>
        cases op' with
        | id ouid' =>
            exact ⟨sortUnique_insert_comm index.ouid ouid' ouid, fun _ _ => by simp⟩
        | posting column value ouid' =>
            refine ⟨?_, fun other name => by simp [lookup_apply_posting]⟩
            rw [ouid_apply_posting]
            exact congrArg (fun ouids => sortUnique (ouids ++ [ouid]))
              (ouid_apply_posting column value ouid' index)
    | posting column value ouid =>
        cases op' with
        | id ouid' =>
            refine ⟨?_, fun other name => by simp [lookup_apply_posting]⟩
            rw [ouid_apply_posting]
            exact congrArg (fun ouids => sortUnique (ouids ++ [ouid']))
              (ouid_apply_posting column value ouid index).symm
        | posting column' value' ouid' =>
            refine ⟨by simp, fun other name => ?_⟩
            simp only [lookup_apply_posting]
            by_cases hsame : column = column' ∧ value = value'
            · obtain ⟨rfl, rfl⟩ := hsame
              by_cases hname : other = column ∧ name = value
              · simp only [if_pos hname, and_self, if_true, Option.getD_some]
                rw [sortUnique_insert_comm]
              · simp [hname]
            · have hsame' : ¬ (column' = column ∧ value' = value) := fun h =>
                hsame ⟨h.1.symm, h.2.symm⟩
              rw [if_neg hsame, if_neg hsame']
              by_cases hname : other = column ∧ name = value
              · rw [if_pos hname, hname.1, hname.2, if_neg hsame, if_pos ⟨rfl, rfl⟩]
              · rw [if_neg hname, if_neg hname]
  idem op index := by
    cases op with
    | id ouid => exact ⟨sortUnique_insert_twice index.ouid ouid, fun _ _ => by simp⟩
    | posting column value ouid =>
        refine ⟨by simp, fun other name => ?_⟩
        simp only [lookup_apply_posting, and_self, if_true, Option.getD_some,
          sortUnique_insert_twice]
        split <;> rfl

/-! ## What `addDocument` inserts -/

theorem scripted_updateTable (column : Column) (ouid value key : String) :
    Scripted Insertion.apply
      (updateTable ouid key (overTable (insertPosting value ouid) column)) :=
  (Scripted.lift _).bind fun _ => (Scripted.lift _).bind fun _ =>
    Scripted.write (.posting column value ouid) fun _ => rfl

theorem scripted_updateAssigned (timestamp configuration : String) :
    Scripted Insertion.apply (addConfigurationAssigned timestamp configuration) :=
  scripted_updateTable .configurationsAssigned timestamp configuration configuration

theorem scripted_forEachName
    {act : String → IndexM Unit} (hact : ∀ name, Scripted Insertion.apply (act name))
    (entries : List Value) :
    Scripted Insertion.apply (forEachName entries act) :=
  Scripted.forM fun _ => (Scripted.lift _).bind hact

theorem scripted_tryIgnore
    {body : IndexM Unit} (hbody : Scripted Insertion.apply body) :
    Scripted Insertion.apply (tryIgnore body) :=
  Scripted.tryCatch hbody fun _ => Scripted.pure ()

/-- The document and its id alone decide what is inserted, however far it gets. -/
theorem scripted_addDocument (document : Object) (ouid : String) :
    Scripted Insertion.apply (addDocument document ouid) := by
  have hid : Scripted Insertion.apply (addId ouid) :=
    (Scripted.lift _).bind fun _ => Scripted.write (.id ouid) fun _ => rfl
  have hconfigs : ∀ configs : List Value, Scripted Insertion.apply
      (forEachConfiguration configs addConfiguration addConfigurationAssigned ouid) :=
    fun configs => Scripted.forM fun _ => (Scripted.lift _).bind fun configuration =>
      (scripted_updateTable .configurations ouid configuration configuration).bind fun _ =>
      (Scripted.lift _).bind fun assigned => scripted_updateAssigned assigned configuration
  have hnames : ∀ (column : Column) (section_ : Except Failure (List Value)),
      Scripted Insertion.apply (tryIgnore do
        let entries ← lift section_
        forEachName entries fun name =>
          updateTable ouid name (overTable (insertPosting name ouid) column)) :=
    fun column section_ => scripted_tryIgnore <| (Scripted.lift _).bind fun entries =>
      scripted_forEachName (fun name => scripted_updateTable column ouid name name) entries
  refine (Scripted.lift _).bind fun _ => Scripted.tryCatch ?_ fun _ => Scripted.pure false
  refine hid.bind fun _ => (Scripted.lift _).bind fun version =>
    (scripted_updateTable .version ouid version version).bind fun _ =>
    (Scripted.lift _).bind fun configs => (hconfigs configs).bind fun _ => ?_
  exact (hnames .entities _).bind fun _ => (hnames .versionAliases _).bind fun _ =>
    (hnames .runs _).bind fun _ => Scripted.pure true

/-- The insertions of each document under each id. -/
theorem exists_insertions :
    ∃ insertions : Object → String → List Insertion, ∀ document ouid index,
      after (addDocument document ouid) index =
        applyAll Insertion.apply (insertions document ouid) index := by
  have hscript := fun document ouid => (scripted_addDocument document ouid).exists_after
  choose insertions hinsertions using hscript
  exact ⟨insertions, hinsertions⟩

theorem addDocument_comm (document document' : Object) (ouid ouid' : String) (index : SearchIndex) :
    SameTables (after (addDocument document' ouid') (after (addDocument document ouid) index))
      (after (addDocument document ouid) (after (addDocument document' ouid') index)) := by
  obtain ⟨insertions, hinsertions⟩ := exists_insertions
  simp only [hinsertions]
  exact insertions_settle.applyAll_comm _ _ index

theorem addDocument_twice (document : Object) (ouid : String) (index : SearchIndex) :
    SameTables (after (addDocument document ouid) (after (addDocument document ouid) index))
      (after (addDocument document ouid) index) := by
  obtain ⟨insertions, hinsertions⟩ := exists_insertions
  simp only [hinsertions]
  exact insertions_settle.applyAll_twice _ index

/-! ## Rebuilding -/

/-- A file of the directory of a collection. -/
inductive DirectoryEntry where
  | searchIndex
  | document (ouid : String) (document : Object)

/-- The files of a collection, in the order of the table. -/
def Collection.files (c : Collection) : List DirectoryEntry :=
  .searchIndex :: c.documents.map fun entry => .document entry.1 entry.2

def addEntry : DirectoryEntry → IndexM Unit
  | .searchIndex => pure ()
  | .document ouid document => do
      let _ ← addDocument document ouid

/-- `SearchIndex::_rebuild` on the files as they are listed.  The index was not
read; an empty one is created and opened first. -/
def rebuild (files : List DirectoryEntry) : IndexM Bool :=
  tryCatch
    (do
      write fun _ => SearchIndex.empty
      files.forM addEntry
      return true)
    fun _ => return false

/-- The index that `addDocument` makes of one file after another. -/
def addEntries (files : List DirectoryEntry) (index : SearchIndex) : SearchIndex :=
  files.foldl (fun index file => after (addEntry file) index) index

theorem addEntry_document (ouid : String) (document : Object) (index : SearchIndex) :
    after (addEntry (.document ouid document)) index = after (addDocument document ouid) index :=
  after_discard (addDocument document ouid) index

theorem addEntry_returns
    {file : DirectoryEntry}
    (hfile : ∀ ouid document, file = .document ouid document → ouid ≠ "") (index : SearchIndex) :
    addEntry file index = .ok () (after (addEntry file) index) := by
  cases file with
  | searchIndex => rfl
  | document ouid document =>
      obtain ⟨b, hb⟩ := addDocument_returns document (hfile ouid document rfl) index
      rw [addEntry_document]
      exact bind_run hb

theorem rebuild_run
    {files : List DirectoryEntry}
    (hfiles : ∀ ouid document, .document ouid document ∈ files → ouid ≠ "") (index : SearchIndex) :
    rebuild files index = .ok true (addEntries files SearchIndex.empty) := by
  apply tryCatch_run
  rw [bind_run (write_run _ _)]
  have hpass : files.forM addEntry SearchIndex.empty =
      .ok () (addEntries files SearchIndex.empty) :=
    forM_run (fun file index => after (addEntry file) index)
      (fun file hfile index => addEntry_returns
        (fun ouid document heq => hfiles ouid document (heq ▸ hfile)) index) SearchIndex.empty
  rw [bind_run hpass]
  rfl

/-- The order of the listing does not matter. -/
theorem addEntries_perm {files files' : List DirectoryEntry} (hperm : files.Perm files')
    (index : SearchIndex) :
    SameTables (addEntries files index) (addEntries files' index) := by
  obtain ⟨insertions, hinsertions⟩ := exists_insertions
  let script : DirectoryEntry → List Insertion := fun file =>
    match file with
    | .searchIndex => []
    | .document ouid document => insertions document ouid
  have hscript : ∀ (files : List DirectoryEntry) (index : SearchIndex),
      addEntries files index = applyAll Insertion.apply (files.flatMap script) index := by
    intro files
    induction files with
    | nil => exact fun _ => rfl
    | cons file files ih =>
        intro index
        have hfile : after (addEntry file) index =
            applyAll Insertion.apply (script file) index := by
          cases file with
          | searchIndex => rfl
          | document ouid document => rw [addEntry_document, hinsertions]
        rw [List.flatMap_cons, applyAll_append, ← ih, ← hfile]
        rfl
  rw [hscript, hscript]
  exact insertions_settle.applyAll_perm (hperm.flatMap_right script) index

/-! ## Histories of inserts -/

/-- The index is what its documents give in the order of their insertion. -/
structure Maintained (c : Collection) : Prop where
  index : c.index = addEntries c.files SearchIndex.empty
  ouid_ne : ∀ ouid document, .document ouid document ∈ c.files → ouid ≠ ""

theorem maintained_empty : Maintained Collection.empty where
  index := rfl
  ouid_ne := by simp [Collection.files, Collection.empty]

theorem files_replaced
    {c : Collection} {request : WriteRequest} (habsent : c.stored request.oid = none) :
    (c.replaced request).files = c.files ++ [.document request.oid request.document] := by
  have hset : set request.oid request.document c.documents =
      c.documents ++ [(request.oid, request.document)] :=
    set_of_absent habsent request.document
  simp [Collection.files, Collection.replaced, hset]

theorem maintained_replaced
    {c : Collection} {request : WriteRequest} (hc : Maintained c)
    (habsent : c.stored request.oid = none) :
    Maintained (c.replaced request) := by
  have hadded := files_replaced habsent
  constructor
  · have hbase : c.indexWithout request = c.index := by
      simp [Collection.indexWithout, habsent]
    have hindex : (c.replaced request).index =
        after (addDocument request.document request.oid) c.index := by
      rw [Collection.replaced, hbase]
    rw [hindex, hadded, hc.index, addEntries, addEntries, List.foldl_append, List.foldl_cons,
      List.foldl_nil, addEntry_document]
  · intro ouid document hmem
    rw [hadded, List.mem_append, List.mem_singleton] at hmem
    rcases hmem with hmem | hmem
    · exact hc.ouid_ne ouid document hmem
    · rw [DirectoryEntry.document.injEq] at hmem
      rw [hmem.1]
      exact request.oid_ne

/-- The write of a call to this collection, unless it is refused, has an id that no
document of the collection has. -/
def InsertCall (name : String) (store : Store) (call : Environment × Value) : Prop :=
  ∀ request, writeRequest call.1 call.2 = .ok request → request.collection = name →
    checkInsert request (collectionAt name store) = .ok () →
    (collectionAt name store).stored request.oid = none

/-- A payload whose filter has no id is an insert: its id is generated, and the file
of an id that exists is refused. -/
theorem insertCall_of_noOid
    {call : Environment × Value} (hnoOid : providedOid (writeFilter call.2) = none)
    (name : String) (store : Store) :
    InsertCall name store call := by
  intro request hrequest _ hcheck
  have hnew : request.isNew = true := by
    rw [(writeRequest_eq_ok hrequest).2.1, hnoOid]
    rfl
  exact checkInsert_absent hcheck hnew

theorem maintained_writes
    {name : String} {store : Store} (hempty : collectionAt name store = Collection.empty)
    {calls : List (Environment × Value)}
    (hinserts : Meets writeStep (InsertCall name) store calls) :
    Maintained (collectionAt name (writes store calls)) := by
  have hstart : Maintained (collectionAt name store) := by
    rw [hempty]
    exact maintained_empty
  exact run_invariant (fun store => Maintained (collectionAt name store))
    (fun store call hstore hinsert => collectionAt_writeStep
      (fun request hrequest hname hcheck =>
        maintained_replaced hstore (hinsert request hrequest hname hcheck)) hstore)
    hstart hinserts

/-- After inserts into an empty collection, a rebuild from its files in any order
gives the tables that the inserts maintained; additions commute and may repeat. -/
theorem rebuild_eq_incremental
    {name : String} {store : Store} (hempty : collectionAt name store = Collection.empty)
    {calls : List (Environment × Value)}
    (hinserts : Meets writeStep (InsertCall name) store calls) :
    (∀ files, files.Perm (collectionAt name (writes store calls)).files → ∀ index,
        ∃ index', rebuild files index = .ok true index' ∧
          SameTables index' (collectionAt name (writes store calls)).index) ∧
      (∀ document document' ouid ouid' index,
        SameTables (after (addDocument document' ouid') (after (addDocument document ouid) index))
          (after (addDocument document ouid) (after (addDocument document' ouid') index))) ∧
      ∀ document ouid index,
        SameTables (after (addDocument document ouid) (after (addDocument document ouid) index))
          (after (addDocument document ouid) index) := by
  refine ⟨fun files hfiles index => ?_, addDocument_comm, addDocument_twice⟩
  have hmaintained := maintained_writes hempty hinserts
  have hne : ∀ ouid document, .document ouid document ∈ files → ouid ≠ "" :=
    fun ouid document hmem => hmaintained.ouid_ne ouid document (hfiles.mem_iff.1 hmem)
  refine ⟨_, rebuild_run hne index, ?_⟩
  rw [hmaintained.index]
  exact addEntries_perm hfiles SearchIndex.empty

theorem rebuild_eq_incremental_two :
    (collectionAt "run" (writes []
        [(exampleEnvironment, examplePayload "v1" "e1" []),
          (secondEnvironment, examplePayload "v2" "e1" [])])).documents.length = 2 ∧
      ∃ index',
        rebuild
            (collectionAt "run" (writes []
              [(exampleEnvironment, examplePayload "v1" "e1" []),
                (secondEnvironment, examplePayload "v2" "e1" [])])).files.reverse
            SearchIndex.empty = .ok true index' ∧
          SameTables index' (collectionAt "run" (writes []
            [(exampleEnvironment, examplePayload "v1" "e1" []),
              (secondEnvironment, examplePayload "v2" "e1" [])])).index := by
  have hnoOid : providedOid (writeFilter (examplePayload "v1" "e1" [])) = none ∧
      providedOid (writeFilter (examplePayload "v2" "e1" [])) = none := by
    decide +kernel
  have hinserts : Meets writeStep (InsertCall "run") []
      [(exampleEnvironment, examplePayload "v1" "e1" []),
        (secondEnvironment, examplePayload "v2" "e1" [])] :=
    ⟨insertCall_of_noOid hnoOid.1 _ _, insertCall_of_noOid hnoOid.2 _ _, trivial⟩
  exact ⟨by decide +kernel,
    (rebuild_eq_incremental rfl hinserts).1 _ (List.reverse_perm _) SearchIndex.empty⟩

end ArtdaqDatabase
