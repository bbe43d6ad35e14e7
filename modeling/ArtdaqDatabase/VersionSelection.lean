import ArtdaqDatabase.ManagementEffects
import ArtdaqDatabase.InsertUniqueness

/-!
# Selecting a version

The options of a version search for its name and for an entity.  A document that
is filed again in its own place, under the same version, is found by the search
that found it before, and by nothing less.
-/

namespace ArtdaqDatabase

open OrderedTable SortedUnique InvertedIndex InPlaceUpdate GuardedRun

/-! ## The combined list -/

/-- A list that changes in one id only, and for the better, still singles it out. -/
theorem combineMatches_eq_singleton
    {k : ℕ} {ouids ouids' : List String} {oid : String}
    (hfound : combineMatches k ouids = [oid])
    (hothers : ∀ id, id ≠ oid → ouids'.count id ≤ ouids.count id) (hmem : oid ∈ ouids')
    (hcount : k ≤ ouids.count oid → k ≤ ouids'.count oid) :
    combineMatches k ouids' = [oid] := by
  have hiff : ∀ id, id ∈ combineMatches k ouids ↔ id = oid := by
    intro id
    rw [hfound, List.mem_singleton]
  have hmem_of : ∀ id, id ≠ oid → id ∈ ouids' → id ∈ ouids := by
    intro id hid hid'
    have hle := hothers id hid
    have hpos := List.count_pos_iff.2 hid'
    exact List.count_pos_iff.1 (by omega)
  have hsame : ∀ id, id ∈ combineMatches k ouids' ↔ id ∈ [oid] := by
    intro id
    rw [List.mem_singleton, mem_combineMatches]
    have holds := (hiff oid).2 rfl
    rw [mem_combineMatches] at holds
    constructor
    · rintro ⟨hid, hkept⟩
      by_contra hne
      have hid' := hmem_of id hne hid
      have hle := hothers id hne
      have hnot : ¬ (k ≤ 1 ∨ (∀ x ∈ ouids, ouids.count x < k) ∨ k ≤ ouids.count id) := by
        intro hk
        exact hne ((hiff id).1 (mem_combineMatches.2 ⟨hid', hk⟩))
      push Not at hnot
      rcases hkept with hk | hall | hk
      · omega
      · have hoid := hall oid hmem
        rcases holds.2 with hk | hall' | hk
        · omega
        · obtain ⟨x, hx, hkx⟩ := hnot.2.1
          have := hall' x hx
          omega
        · have := hcount hk
          omega
      · omega
    · rintro rfl
      refine ⟨hmem, ?_⟩
      rcases holds.2 with hk | hall | hk
      · exact Or.inl hk
      · refine Or.inr ?_
        by_cases hk : k ≤ ouids'.count id
        · exact Or.inr hk
        · refine Or.inl fun x hx => ?_
          by_cases hx' : x = id
          · subst hx'
            omega
          · have hlt := hall x (hmem_of x hx' hx)
            have hle := hothers x hx'
            omega
      · exact Or.inr (Or.inr (hcount hk))
  rw [← sortUnique_of_sortedLT (combineMatches_sortedLT k ouids'), sortUnique_congr hsame]
  rfl

theorem mem_of_combineMatches {k : ℕ} {ouids : List String} {oid : String}
    (hfound : combineMatches k ouids = [oid]) : oid ∈ ouids := by
  have hmem : oid ∈ combineMatches k ouids := by
    rw [hfound, List.mem_singleton]
  exact (mem_combineMatches.1 hmem).1

/-! ## Filing a document again -/

/-- The lists of one id are renewed for a version, and kept or extended for the
entities. -/
structure Relisted (oid version : String) (index index' : SearchIndex) : Prop where
  ids : index'.ouid = sortUnique (index.ouid.filter (· ≠ oid) ++ [oid])
  versions : index'.version = insertPosting version oid (dropPosting version oid index.version)
  entities : EntitiesGrow oid index index'

theorem relisted_indexed
    {old document : Object} {version oid : String} (hne : version ≠ "") (hoid : oid ≠ "")
    (hold : lookup "version" old = some (.string version))
    (hdocument : lookup "version" document = some (.string version)) (index : SearchIndex) :
    Relisted oid version index
      (after (addDocument document oid) (after (removeDocument old oid) index)) := by
  have hremoved := versionView_removeDocument hold hne hoid index
  have hadded := versionView_addDocument hdocument hne hoid (after (removeDocument old oid) index)
  rw [versionView, Prod.mk.injEq] at hremoved hadded
  constructor
  · rw [hadded.1, hremoved.1]
  · rw [hadded.2, hremoved.2]
  · obtain ⟨names, hnames⟩ :=
      entitiesGrow_addDocument document oid (after (removeDocument old oid) index)
    exact ⟨names, by rw [hnames, keeps_entities_removeDocument old oid index]⟩

section Relisted

variable {oid version : String} {index index' : SearchIndex}

theorem count_sortUnique_append_le {id : String} (hid : id ≠ oid) (ids : List String) :
    (sortUnique (ids ++ [oid])).count id ≤ ids.count id := by
  by_cases hmem : id ∈ ids
  · have hone := List.nodup_iff_count_le_one.1 (sortUnique_sortedLT (ids ++ [oid])).nodup id
    have hpos := List.count_pos_iff.2 hmem
    omega
  · have habsent : id ∉ sortUnique (ids ++ [oid]) := by
      simp [hmem, hid]
    rw [List.count_eq_zero_of_not_mem habsent]
    omega

theorem Relisted.count_ids_le (h : Relisted oid version index index') {id : String}
    (hid : id ≠ oid) : index'.ouid.count id ≤ index.ouid.count id := by
  rw [h.ids]
  exact (count_sortUnique_append_le hid _).trans (List.filter_sublist.count_le id)

theorem Relisted.posting_version (h : Relisted oid version index index') :
    posting version index'.version =
      sortUnique ((posting version index.version).filter (· ≠ oid) ++ [oid]) := by
  rw [h.versions, posting_insertPosting, if_pos rfl, posting_dropPosting, if_pos rfl]

theorem Relisted.count_version_le (h : Relisted oid version index index') {id : String}
    (hid : id ≠ oid) :
    (posting version index'.version).count id ≤ (posting version index.version).count id := by
  rw [h.posting_version]
  exact (count_sortUnique_append_le hid _).trans (List.filter_sublist.count_le id)

theorem Relisted.mem_version (h : Relisted oid version index index') :
    oid ∈ posting version index'.version := by
  rw [h.posting_version]
  simp

theorem EntitiesGrow.posting (h : EntitiesGrow oid index index') (entity : String) :
    (∀ id, id ≠ oid →
        (posting entity index'.entities).count id ≤ (posting entity index.entities).count id) ∧
      (oid ∈ InvertedIndex.posting entity index.entities →
        oid ∈ InvertedIndex.posting entity index'.entities) := by
  obtain ⟨names, hnames⟩ := h
  rw [hnames]
  clear hnames
  generalize index.entities = table
  induction names generalizing table with
  | nil => exact ⟨fun _ _ => le_rfl, id⟩
  | cons name names ih =>
      have htail := ih (insertPosting name oid table)
      rw [List.foldl_cons]
      have hhead : ∀ id, id ≠ oid →
          (InvertedIndex.posting entity (insertPosting name oid table)).count id ≤
            (InvertedIndex.posting entity table).count id := by
        intro id hid
        rw [posting_insertPosting]
        split
        · rename_i hname
          rw [hname]
          exact count_sortUnique_append_le hid _
        · exact le_rfl
      refine ⟨fun id hid => (htail.1 id hid).trans (hhead id hid), fun hmem => htail.2 ?_⟩
      rw [posting_insertPosting]
      split
      · simp
      · exact hmem

end Relisted

/-! ## Sorted versions -/

/-- The versions of the stored documents are listed, each id once. -/
structure VersionsSorted (c : Collection) : Prop where
  listed : VersionsListed c
  sorted : SortedPostings c.index.version

theorem versionsSorted_replaced
    {c : Collection} {request : WriteRequest} (hc : VersionsSorted c)
    (hnew : request.isNew = true → c.stored request.oid = none)
    (hversioned : Versioned request.document) : VersionsSorted (c.replaced request) := by
  refine ⟨versionsListed_replaced hc.listed hnew hversioned, ?_⟩
  have hbase : SortedPostings (c.indexWithout request).version := by
    unfold Collection.indexWithout
    split
    · exact hc.sorted
    · split
      · rename_i old hold
        obtain ⟨version, hversion, hne⟩ := hc.listed.versioned _ _ hold
        have hview := versionView_removeDocument hversion hne request.oid_ne c.index
        rw [versionView, Prod.mk.injEq] at hview
        rw [hview.2]
        exact hc.sorted.dropPosting _ _
      · exact hc.sorted
  obtain ⟨version, hversion, hne⟩ := hversioned
  have hview := versionView_addDocument hversion hne request.oid_ne (c.indexWithout request)
  rw [versionView, Prod.mk.injEq] at hview
  rw [Collection.replaced, hview.2]
  exact hbase.insertPosting _ _

theorem versionsSorted_of_reachable {store : Store} (hreachable : Reachable store) (name : String) :
    VersionsSorted (collectionAt name store) := by
  obtain ⟨calls, rfl⟩ := hreachable
  have hmeets : Meets writeStep (fun _ _ => True) [] calls :=
    meets_of_forall (fun _ _ _ => trivial) []
  have hempty : VersionsSorted (collectionAt name []) :=
    ⟨versionsListed_empty, sortedPostings_nil⟩
  exact run_invariant (fun store => VersionsSorted (collectionAt name store))
    (fun _ _ hstore _ =>
      collectionAt_writeStep
        (fun _ hrequest _ hcheck =>
          versionsSorted_replaced hstore (checkInsert_absent hcheck)
            (writeRequest_versioned hrequest))
        hstore)
    hempty hmeets

/-! ## The search for a version -/

/-- The query filter of the options that name a version and perhaps an entity. -/
def versionCriteria (version entity : OptionText) : Object :=
  criterion "version" version ++ criterion "entities.name" entity

theorem versionCriteria_supported (version entity : OptionText) :
    SupportedSearch (versionCriteria version entity) := by
  intro c hc
  rw [versionCriteria, List.mem_append] at hc
  unfold criterion at hc
  rcases hc with hc | hc
  · split at hc
    · cases hc
    · rw [List.mem_singleton] at hc
      rw [hc]
      exact SupportedCriterion.version version.text_ne
  · split at hc
    · cases hc
    · rw [List.mem_singleton] at hc
      rw [hc]
      exact SupportedCriterion.entity entity.text_ne

theorem criterionIds_version {version : String} (hne : version ≠ "") (index : SearchIndex) :
    criterionIds index ("version", .string version) = posting version index.version := by
  simp [criterionIds, runMatchingFunction, matchVersion, matchTable_eq_ok hne, Except.toOption]

theorem criterionIds_entity {entity : String} (hne : entity ≠ "") (index : SearchIndex) :
    criterionIds index ("entities.name", .string entity) = posting entity index.entities := by
  simp [criterionIds, runMatchingFunction, matchEntity, matchTable_eq_ok hne, Except.toOption]

/-- A search by version and entity finds the document again after it was filed again. -/
theorem findDocumentIDs_relisted
    {version entity : OptionText} {oid : String} {index index' : SearchIndex}
    (hrelisted : Relisted oid version.text index index')
    (hsorted : SortedPostings index.version)
    (hfound : findDocumentIDs index (versionCriteria version entity) = .ok [oid]) :
    findDocumentIDs index' (versionCriteria version entity) = .ok [oid] := by
  have hentities := hrelisted.entities.posting entity.text
  have hversion := criterionIds_version version.text_ne
  have hentity := criterionIds_entity entity.text_ne
  have hcombined := findDocumentIDs_supported (versionCriteria_supported version entity)
  unfold versionCriteria criterion at hfound hcombined ⊢
  by_cases hv : version = notprovided
  · by_cases he : entity = notprovided
    · -- no criterion: the search returns every id of the collection
      simp only [hv, he, if_true, List.append_nil, findDocumentIDs, Except.ok.injEq] at hfound ⊢
      rw [hrelisted.ids, hfound]
      simp [sortUnique]
    · simp only [if_pos hv, if_neg he, List.nil_append] at hfound hcombined ⊢
      simp only [hcombined (by simp), List.map_cons, List.map_nil, List.flatten_cons,
        List.flatten_nil, List.append_nil, hentity, Except.ok.injEq, stringCriteria,
        List.countP_singleton, isString, if_true] at hfound ⊢
      have hmem := hentities.2 (mem_of_combineMatches hfound)
      exact combineMatches_eq_singleton hfound hentities.1 hmem fun _ => List.count_pos_iff.2 hmem
  · by_cases he : entity = notprovided
    · simp only [if_neg hv, if_pos he, List.append_nil] at hfound hcombined ⊢
      simp only [hcombined (by simp), List.map_cons, List.map_nil, List.flatten_cons,
        List.flatten_nil, List.append_nil, hversion, Except.ok.injEq, stringCriteria,
        List.countP_singleton, isString, if_true] at hfound ⊢
      exact combineMatches_eq_singleton hfound (fun _ => hrelisted.count_version_le)
        hrelisted.mem_version fun _ => List.count_pos_iff.2 hrelisted.mem_version
    · simp only [if_neg hv, if_neg he, List.cons_append, List.nil_append] at hfound hcombined ⊢
      simp only [hcombined (by simp), List.map_cons, List.map_nil, List.flatten_cons,
        List.flatten_nil, List.append_nil, hversion, hentity, Except.ok.injEq] at hfound ⊢
      have htwo : stringCriteria [("version", .string version.text),
          ("entities.name", .string entity.text)] = 2 := rfl
      rw [htwo] at hfound ⊢
      apply combineMatches_eq_singleton hfound
      · intro id hid
        rw [List.count_append, List.count_append]
        exact Nat.add_le_add (hrelisted.count_version_le hid) (hentities.1 id hid)
      · exact List.mem_append_left _ hrelisted.mem_version
      · -- the version lists the id once, so the other occurrence is that of the entity
        intro hcount
        rw [List.count_append] at hcount ⊢
        have hone := List.nodup_iff_count_le_one.1 (hsorted version.text).nodup oid
        have hlisted : oid ∈ posting entity.text index.entities := by
          apply List.count_pos_iff.1
          omega
        have hversions := List.count_pos_iff.2 hrelisted.mem_version
        have hentities' := List.count_pos_iff.2 (hentities.2 hlisted)
        omega

end ArtdaqDatabase
