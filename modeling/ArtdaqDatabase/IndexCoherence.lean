import ArtdaqDatabase.FileSystemProvider

/-!
# The index follows the documents

A collection is coherent when every table of its index relates exactly the values
and the ids of the stored documents.  A write keeps that up for all tables but
three: the entities and the aliases of a replaced document stay listed, and its
assigned timestamps are struck although another document may carry them.
-/

namespace ArtdaqDatabase

open OrderedTable SortedUnique InvertedIndex InPlaceUpdate GuardedRun

/-- The values of an attribute as a set. -/
def valuesOf {V : Type} (attr : Object → List V) (document : Object) : Set V :=
  {v | v ∈ attr document}

/-- Every table of the index lists what the stored documents carry. -/
structure Coherent (c : Collection) : Prop where
  ids : ∀ id, id ∈ c.index.ouid ↔ ∃ document, c.stored id = some document
  version : entries c.index.version = carriedBy (valuesOf documentVersions) c.stored
  configurations :
    entries c.index.configurations = carriedBy (valuesOf documentConfigurations) c.stored
  entities : entries c.index.entities = carriedBy (valuesOf documentEntities) c.stored
  versionAliases :
    entries c.index.versionAliases = carriedBy (valuesOf documentAliases) c.stored
  runs : entries c.index.runs = carriedBy (valuesOf documentRuns) c.stored
  configurationsAssigned :
    entries c.index.configurationsAssigned = carried (valuesOf documentAssignments) c.stored

/-- What a write has to leave as it was for the index to follow it. -/
structure Followed (c : Collection) (request : WriteRequest) : Prop where
  indexable : Indexable request.document
  entities_kept : ∀ old, c.stored request.oid = some old →
    ∀ name ∈ documentEntities old, name ∈ documentEntities request.document
  aliases_kept : ∀ old, c.stored request.oid = some old →
    ∀ name ∈ documentAliases old, name ∈ documentAliases request.document
  assigned_unshared : ∀ old p, c.stored request.oid = some old →
    p ∈ documentAssignments old → p ∉ documentAssignments request.document →
    ∀ id document, id ≠ request.oid → c.stored id = some document →
      p ∉ documentAssignments document

/-- A coherent collection in which every document can be indexed. -/
structure Followable (c : Collection) : Prop where
  coherent : Coherent c
  indexable : ∀ id document, c.stored id = some document → Indexable document

theorem followable_empty : Followable Collection.empty := by
  have hnone : Collection.empty.stored = fun _ => none := rfl
  refine ⟨⟨?_, ?_, ?_, ?_, ?_, ?_, ?_⟩, by simp⟩
  · simp [Collection.empty, SearchIndex.empty, Collection.stored]
  all_goals
    simp only [Collection.empty, SearchIndex.empty, entries_nil, carriedBy, carried]
    ext p
    simp [Collection.stored]

/-! ## One write -/

section Write

variable {c : Collection} {request : WriteRequest}

/-- The index from which a replaced document has been struck, as far as
`removeDocument` strikes it. -/
structure Unlisted (c : Collection) (oid : String) (base : SearchIndex) : Prop where
  ids : ∀ id, id ≠ oid → (id ∈ base.ouid ↔ id ∈ c.index.ouid)
  version : entries base.version =
    entries c.index.version \ stale (valuesOf documentVersions) (c.stored oid) oid
  configurations : entries base.configurations =
    entries c.index.configurations \ stale (valuesOf documentConfigurations) (c.stored oid) oid
  entities : entries base.entities = entries c.index.entities
  versionAliases : entries base.versionAliases = entries c.index.versionAliases
  runs : entries base.runs =
    entries c.index.runs \ stale (valuesOf documentRuns) (c.stored oid) oid
  configurationsAssigned : entries base.configurationsAssigned =
    entries c.index.configurationsAssigned \
      {p | ∃ old, c.stored oid = some old ∧ p ∈ valuesOf documentAssignments old}

theorem unlisted_of_absent {oid : String} (habsent : c.stored oid = none) :
    Unlisted c oid c.index := by
  constructor <;> simp [habsent]

theorem stale_some {V : Type} (attr : Object → List V) (old : Object) (oid : String) :
    stale (valuesOf attr) (some old) oid = {p | p.1 ∈ attr old ∧ p.2 = oid} := by
  ext p
  simp [stale, valuesOf, and_comm]

theorem unlisted_unindexDocument
    (hc : entries c.index.configurations = carriedBy (valuesOf documentConfigurations) c.stored)
    {oid : String} {old : Object} (hold : c.stored oid = some old) :
    Unlisted c oid (unindexDocument old oid c.index) := by
  refine ⟨?_, ?_, ?_, rfl, rfl, ?_, ?_⟩
  · intro id hid
    simp [unindexDocument, hid]
  · rw [hold, stale_some]
    exact entries_foldl_dropPosting _ _ _
  · -- The names of the aliases are struck too; no id is listed under them but
    -- through a configuration of the same name.
    rw [hold, stale_some]
    refine (entries_foldl_dropPosting _ _ _).trans ?_
    ext ⟨name, id⟩
    simp only [Set.mem_sdiff, Set.mem_ofPred_eq, List.mem_append, not_and]
    refine and_congr_right fun hlisted => ⟨fun h hname => ?_, fun h hname => ?_⟩
    · exact h (Or.inl hname)
    · rintro rfl
      rw [hc] at hlisted
      obtain ⟨document, hdocument, hcarried⟩ := hlisted
      rw [hold, Option.some.injEq] at hdocument
      subst hdocument
      exact h hcarried rfl
  · rw [hold, stale_some]
    exact entries_foldl_dropPosting _ _ _
  · refine (entries_foldl_dropPair _ _).trans ?_
    simp [hold, valuesOf]

/-- The index after a write lists the new document over the struck index. -/
theorem index_replaced
    (hc : Followable c) (hnew : request.isNew = true → c.stored request.oid = none)
    (hindexable : Indexable request.document) :
    ∃ base, Unlisted c request.oid base ∧
      (c.replaced request).index = indexDocument request.document request.oid base := by
  have hadd := addDocument_run hindexable request.oid_ne
  cases hold : c.stored request.oid with
  | none =>
      refine ⟨c.index, unlisted_of_absent hold, ?_⟩
      have hbase : c.indexWithout request = c.index := by
        simp [Collection.indexWithout, hold]
      rw [Collection.replaced, hbase, after_of_ok (hadd c.index)]
  | some old =>
      have hoverwrite : request.isNew = false := by
        cases hisNew : request.isNew with
        | false => rfl
        | true => simp [hnew hisNew] at hold
      have hremove := removeDocument_run (hc.indexable _ _ hold) request.oid_ne c.index
      refine ⟨_, unlisted_unindexDocument hc.coherent.configurations hold, ?_⟩
      have hbase : c.indexWithout request = unindexDocument old request.oid c.index := by
        rw [Collection.indexWithout, hoverwrite, hold]
        exact after_of_ok hremove
      rw [Collection.replaced, hbase, after_of_ok (hadd _)]

/-- From a collection that the index follows, an accepted write of an indexable
document is followed exactly when it keeps the names that `removeDocument` does not
strike and shares no timestamp that it does strike. -/
theorem coherent_replaced_iff
    (hc : Followable c) (hnew : request.isNew = true → c.stored request.oid = none)
    (hindexable : Indexable request.document) :
    Coherent (c.replaced request) ↔ Followed c request := by
  obtain ⟨base, hbase, hindex⟩ := index_replaced hc hnew hindexable
  have hlists : ∀ {attr : Object → List String} {t t' : Postings},
      entries t = entries t' \ stale (valuesOf attr) (c.stored request.oid) request.oid →
      entries t' = carriedBy (valuesOf attr) c.stored →
      entries ((attr request.document).foldl (fun t v => insertPosting v request.oid t) t) =
        carriedBy (valuesOf attr) (c.replaced request).stored := by
    intro attr t t' ht ht'
    rw [stored_replaced, carriedBy_update, entries_foldl_insertPosting, ht, ht']
    rfl
  have hentities : entries (c.replaced request).index.entities =
      carriedBy (valuesOf documentEntities) c.stored ∪
        {p | p.1 ∈ valuesOf documentEntities request.document ∧ p.2 = request.oid} := by
    rw [hindex, ← hc.coherent.entities, ← hbase.entities]
    exact entries_foldl_insertPosting _ _ _
  have haliases : entries (c.replaced request).index.versionAliases =
      carriedBy (valuesOf documentAliases) c.stored ∪
        {p | p.1 ∈ valuesOf documentAliases request.document ∧ p.2 = request.oid} := by
    rw [hindex, ← hc.coherent.versionAliases, ← hbase.versionAliases]
    exact entries_foldl_insertPosting _ _ _
  have hassigned : entries (c.replaced request).index.configurationsAssigned =
      (carried (valuesOf documentAssignments) c.stored \
          {p | ∃ old, c.stored request.oid = some old ∧
            p ∈ valuesOf documentAssignments old}) ∪
        valuesOf documentAssignments request.document := by
    rw [hindex, ← hc.coherent.configurationsAssigned, ← hbase.configurationsAssigned]
    exact entries_foldl_insertPair _ _
  constructor
  · intro hcoherent
    have hkeptEntities := hcoherent.entities.symm.trans hentities
    have hkeptAliases := hcoherent.versionAliases.symm.trans haliases
    have hkeptAssigned := hcoherent.configurationsAssigned.symm.trans hassigned
    rw [stored_replaced] at hkeptEntities hkeptAliases hkeptAssigned
    exact
      { indexable := hindexable
        entities_kept := carriedBy_update_eq_union_iff.1 hkeptEntities
        aliases_kept := carriedBy_update_eq_union_iff.1 hkeptAliases
        assigned_unshared := carried_update_eq_union_iff.1 hkeptAssigned }
  · intro hfollowed
    refine ⟨fun id => ?_, ?_, ?_, ?_, ?_, ?_, ?_⟩
    · rw [stored_replaced, hindex, indexDocument, mem_sortUnique, List.mem_append,
        List.mem_singleton]
      by_cases hid : id = request.oid
      · simp [hid]
      · rw [hbase.ids id hid, hc.coherent.ids, Function.update_of_ne hid]
        simp [hid]
    · rw [hindex]
      exact hlists hbase.version hc.coherent.version
    · rw [hindex]
      exact hlists hbase.configurations hc.coherent.configurations
    · rw [hentities, stored_replaced]
      exact (carriedBy_update_eq_union_iff.2 hfollowed.entities_kept).symm
    · rw [haliases, stored_replaced]
      exact (carriedBy_update_eq_union_iff.2 hfollowed.aliases_kept).symm
    · rw [hindex]
      exact hlists hbase.runs hc.coherent.runs
    · rw [hassigned, stored_replaced]
      exact (carried_update_eq_union_iff.2 hfollowed.assigned_unshared).symm

theorem followable_replaced
    (hc : Followable c) (hnew : request.isNew = true → c.stored request.oid = none)
    (hfollowed : Followed c request) :
    Followable (c.replaced request) := by
  refine ⟨(coherent_replaced_iff hc hnew hfollowed.indexable).2 hfollowed, ?_⟩
  intro id document hdocument
  rw [stored_replaced] at hdocument
  by_cases hid : id = request.oid
  · subst hid
    rw [Function.update_self, Option.some.injEq] at hdocument
    rw [← hdocument]
    exact hfollowed.indexable
  · rw [Function.update_of_ne hid] at hdocument
    exact hc.indexable id document hdocument

end Write

/-! ## Runs -/

/-- The write of a call to this collection, unless it is refused, is one that the
index follows. -/
def FollowedCall (name : String) (store : Store) (call : Environment × Value) : Prop :=
  ∀ request, writeRequest call.1 call.2 = .ok request → request.collection = name →
    checkInsert request (collectionAt name store) = .ok () →
    Followed (collectionAt name store) request

/-- In a run of writes to an empty collection that the index follows one by one,
the index is coherent in every state. -/
theorem writes_coherent
    {name : String} {store : Store} (hempty : collectionAt name store = Collection.empty)
    {calls : List (Environment × Value)}
    (hmeets : Meets writeStep (FollowedCall name) store calls)
    {first : List (Environment × Value)} (hfirst : first <+: calls) :
    Coherent (collectionAt name (writes store first)) := by
  obtain ⟨rest, rfl⟩ := hfirst
  have hstart : Followable (collectionAt name store) := by
    rw [hempty]
    exact followable_empty
  have hrun : Followable (collectionAt name (writes store first)) :=
    run_invariant (fun store => Followable (collectionAt name store))
      (fun store call hstore hfollowed => by
        refine collectionAt_writeStep (fun request hrequest hname hcheck => ?_) hstore
        exact followable_replaced hstore (fun hnew => checkInsert_absent hcheck hnew)
          (hfollowed request hrequest hname hcheck))
      hstart hmeets.of_append
  exact hrun.coherent

theorem exampleRequest_indexable :
    Indexable (exampleRequest exampleEnvironment "v1" "e1" []).document :=
  ⟨{  version := "v1"
      configurations := []
      entities :=
        [.object [("name", .string "e1"), ("assigned", .string exampleEnvironment.timestamp)]]
      aliases := [("active", .array []), ("history", .array [])]
      active := []
      runs := []
      version_lookup := by decide +kernel
      configurations_lookup := by decide +kernel
      entities_lookup := by decide +kernel
      aliases_lookup := by decide +kernel
      active_lookup := by decide +kernel
      runs_lookup := by decide +kernel
      version_ne := by decide
      configurations_assigned := by simp [EntriesAssigned]
      entities_named := by
        intro entry hentry
        rw [List.mem_singleton] at hentry
        subst hentry
        exact ⟨"e1", by decide, by decide⟩
      active_named := by simp [EntriesNamed]
      runs_named := by simp [EntriesNamed] }⟩

theorem followedCall_insert :
    FollowedCall "run" [] (exampleEnvironment, examplePayload "v1" "e1" []) := by
  intro request hrequest _ _
  have hexample : exampleRequest exampleEnvironment "v1" "e1" [] = request :=
    exampleRequest_eq hrequest
  refine ⟨by rw [← hexample]; exact exampleRequest_indexable, ?_, ?_, ?_⟩
  · intro old hold
    simp [collectionAt] at hold
  · intro old hold
    simp [collectionAt] at hold
  · intro old p hold
    simp [collectionAt] at hold

theorem writes_coherent_insert :
    Meets writeStep (FollowedCall "run") []
        [(exampleEnvironment, examplePayload "v1" "e1" [])] ∧
      Coherent (collectionAt "run"
        (writes [] [(exampleEnvironment, examplePayload "v1" "e1" [])])) :=
  have hmeets : Meets writeStep (FollowedCall "run") []
      [(exampleEnvironment, examplePayload "v1" "e1" [])] := ⟨followedCall_insert, trivial⟩
  ⟨hmeets, writes_coherent rfl hmeets List.prefix_rfl⟩

/-- An overwrite that renames the entity leaves the old name listed. -/
theorem overwrite_lists_old_entity :
    ¬ Coherent (collectionAt "run"
      (writes []
        [(exampleEnvironment, examplePayload "v1" "e1" []),
          (exampleEnvironment, examplePayload "v1" "e2" exampleId)])) := by
  intro hcoherent
  have hlisted : exampleEnvironment.providerOid ∈ posting "e1"
      (collectionAt "run" (writes []
        [(exampleEnvironment, examplePayload "v1" "e1" []),
          (exampleEnvironment, examplePayload "v1" "e2" exampleId)])).index.entities := by
    decide +kernel
  have hstored : ∃ document,
      (collectionAt "run" (writes []
        [(exampleEnvironment, examplePayload "v1" "e1" []),
          (exampleEnvironment, examplePayload "v1" "e2" exampleId)])).stored
          exampleEnvironment.providerOid = some document ∧
        documentEntities document = ["e2"] :=
    ⟨(exampleRequest exampleEnvironment "v1" "e2" exampleId).document, by decide +kernel, by decide +kernel⟩
  obtain ⟨document, hdocument, hentities⟩ := hstored
  rw [← mem_entries, hcoherent.entities] at hlisted
  obtain ⟨document', hdocument', hcarried⟩ := hlisted
  rw [hdocument, Option.some.injEq] at hdocument'
  subst hdocument'
  simp [valuesOf, hentities] at hcarried

end ArtdaqDatabase
