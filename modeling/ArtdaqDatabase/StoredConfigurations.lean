import ArtdaqDatabase.LoadedConfigurations
import ArtdaqDatabase.FoundConfigurations
import ArtdaqDatabase.ParallelOverwrite

/-!
# Stored compositions are loaded

A composition is made of members that designate places: each names one document by its
version and its only entity, and the members in one collection have one version.  A call
that stores such members over an old composition of the same kind returns, and the
composition that is loaded afterwards has these members and no others.
-/

namespace ArtdaqDatabase

open OrderedTable InPlaceUpdate InvertedIndex SortedUnique BatchUpdate

/-! ## Members and places -/

/-- The member names the document of the place and no other of the collection. -/
structure Designates (store : Store) (member : VersionInfo) (p : Place) : Prop where
  valid : member.validate = .ok ()
  collection : p.1 = member.configuration
  document : ∃ document, documentAt store p.1 p.2 = some document ∧ Writable document ∧
    HasMember document member
  unique : ∀ oid document, documentAt store p.1 oid = some document →
    documentVersions document = [member.version] →
    member.entity ∈ documentEntities document → oid = p.2

/-- The members designate the places, with one version for each collection. -/
structure Composes (store : Store) (members : List VersionInfo) (D : Set Place) : Prop where
  designates : ∀ member ∈ members, ∃ p ∈ D, Designates store member p
  named : ∀ p ∈ D, ∃ member ∈ members, Designates store member p
  oneVersion : ∀ member ∈ members, ∀ other ∈ members,
    member.configuration = other.configuration → member.version = other.version

theorem validate_eq_ok_iff {member : VersionInfo} :
    member.validate = .ok () ↔
      member.configuration ≠ "" ∧ member.version ≠ "" ∧ member.entity ≠ "" := by
  by_cases hconfiguration : member.configuration = ""
  · simp [VersionInfo.validate, confirm, hconfiguration, bind, Except.bind]
  · by_cases hversion : member.version = ""
    · simp [VersionInfo.validate, confirm, hconfiguration, hversion, bind, Except.bind]
    · by_cases hentity : member.entity = ""
      · simp [VersionInfo.validate, confirm, hconfiguration, hversion, hentity, bind, Except.bind]
      · simp [VersionInfo.validate, confirm, hconfiguration, hversion, hentity, bind, Except.bind]

theorem text_provided {text : String} (htext : text ≠ "") : (provided text).text = text := by
  rw [provided, dif_neg htext]

section Place

variable {store : Store} (hstore : TidyStore store) {member : VersionInfo} {p : Place}
  (hplace : Designates store member p)
include hplace

theorem Designates.collection_eq : (provided member.configuration).text = p.1 := by
  have hvalid := validate_eq_ok_iff.1 hplace.valid
  rw [text_provided hvalid.1, hplace.collection]

include hstore

/-- The search of the member finds its document alone. -/
theorem Designates.selects :
    ∃ document, documentAt store p.1 p.2 = some document ∧ Writable document ∧
      HasMember document member ∧ readDocument (memberSearch member) store = .ok document := by
  obtain ⟨document, hdocument, hwritable, hmember⟩ := hplace.document
  refine ⟨document, hdocument, hwritable, hmember, ?_⟩
  have hvalid := validate_eq_ok_iff.1 hplace.valid
  have hc := hstore.toListedStore.collectionAt p.1
  have hversions : ∀ oid, oid ∈ posting member.version (collectionAt p.1 store).index.version ↔
      Carries documentVersions (collectionAt p.1 store) member.version oid := fun oid =>
    (listed_iff_mem_posting (hc.wellFormed.keys .version)).symm.trans
      (hc.listed_version member.version oid)
  have hentities : ∀ oid, oid ∈ posting member.entity (collectionAt p.1 store).index.entities ↔
      Carries documentEntities (collectionAt p.1 store) member.entity oid := fun oid =>
    (listed_iff_mem_posting (hc.wellFormed.keys .entities)).symm.trans
      (hc.listed_entities member.entity oid)
  have hversion : p.2 ∈ posting member.version (collectionAt p.1 store).index.version := by
    rw [hversions]
    exact ⟨document, hdocument, by rw [hmember.version, List.mem_singleton]⟩
  have hentity : p.2 ∈ posting member.entity (collectionAt p.1 store).index.entities := by
    rw [hentities]
    exact ⟨document, hdocument, (hmember.entity member.entity).2 rfl⟩
  have hfirst := List.nodup_iff_count_le_one.1
    (hc.wellFormed.postings .version member.version).nodup
  have hsecond := List.nodup_iff_count_le_one.1
    (hc.wellFormed.postings .entities member.entity).nodup
  change ∀ a, (posting member.version (collectionAt p.1 store).index.version).count a ≤ 1 at hfirst
  change ∀ a, (posting member.entity (collectionAt p.1 store).index.entities).count a ≤ 1 at hsecond
  -- Each list has an id at most once, so only the id of both lists is counted twice.
  have hfound : combineMatches 2 (posting member.version (collectionAt p.1 store).index.version ++
      posting member.entity (collectionAt p.1 store).index.entities) = [p.2] := by
    refine (eq_singleton_iff (combineMatches_sortedLT _ _).nodup p.2).2 fun oid => ?_
    rw [mem_combineMatches, List.mem_append, List.count_append]
    have hboth : 2 ≤ (posting member.version (collectionAt p.1 store).index.version).count p.2 +
        (posting member.entity (collectionAt p.1 store).index.entities).count p.2 := by
      have h1 := List.count_pos_iff.2 hversion
      have h2 := List.count_pos_iff.2 hentity
      omega
    constructor
    · rintro ⟨-, hone | hall | htwo⟩
      · omega
      · have hless := hall p.2 (List.mem_append_left _ hversion)
        rw [List.count_append] at hless
        omega
      · have hone := hfirst oid
        have htwo' := hsecond oid
        have hlisted := (hversions oid).1 (List.count_pos_iff.1 (by omega))
        have hlisted' := (hentities oid).1 (List.count_pos_iff.1 (by omega))
        obtain ⟨other, hother, hversion'⟩ := hlisted
        obtain ⟨other', hother', hentity'⟩ := hlisted'
        rw [hother, Option.some.injEq] at hother'
        subst hother'
        obtain ⟨version, hone'⟩ := documentVersions_of_documentAt hstore hother
        rw [hone', List.mem_singleton] at hversion'
        exact hplace.unique oid other hother (by rw [hone', hversion']) hentity'
    · rintro rfl
      exact ⟨Or.inl hversion, Or.inr (Or.inr hboth)⟩
  have hread : readDocuments (memberSearch member) store = .ok [document] := by
    have hfile : readFile (collectionAt p.1 store) p.2 = .ok document := by
      rw [readFile, show (collectionAt p.1 store).stored p.2 = some document from hdocument]
    rw [readDocuments_memberSearch, hplace.collection_eq, findDocumentIDs_versionFilter,
      matchTable_eq_ok hvalid.2.1, matchTable_eq_ok hvalid.2.2]
    simp [bind, Except.bind, hfound, hfile, pure, Except.pure]
  rw [readDocument, hread]
  rfl

theorem Designates.writablePlaces_eq : writablePlaces store member = {p} := by
  obtain ⟨document, hdocument, hwritable, -, hread⟩ := hplace.selects hstore
  rw [← hplace.collection_eq] at hdocument
  ext q
  rw [mem_writablePlaces hstore hdocument hread, Set.mem_singleton_iff, Prod.ext_iff,
    hplace.collection_eq]
  constructor
  · exact fun h => h.1
  · exact fun h => ⟨h, hwritable⟩

omit hstore in
/-- A place has one member. -/
theorem Designates.member_unique {other : VersionInfo} (hother : Designates store other p) :
    other = member := by
  obtain ⟨document, hdocument, -, hmember⟩ := hplace.document
  obtain ⟨document', hdocument', -, hmember'⟩ := hother.document
  rw [hdocument, Option.some.injEq] at hdocument'
  rw [← hdocument'] at hmember'
  obtain ⟨hversion, hentity⟩ := hmember.unique hmember'.version ((hmember'.entity _).2 rfl)
  have hconfiguration : other.configuration = member.configuration := by
    rw [← hother.collection, hplace.collection]
  exact VersionInfo.ext hconfiguration hversion hentity

end Place

/-! ## The difference of two compositions -/

section Difference

variable {oldMembers newMembers : List VersionInfo} (honeVersion : ∀ member ∈ newMembers,
  ∀ other ∈ newMembers, member.configuration = other.configuration →
    member.version = other.version)
include honeVersion

/-- Where a collection has one version, a repeated key has the version of its member. -/
theorem unchanged_iff_of_oneVersion (member : VersionInfo) :
    Unchanged (newVersions newMembers) member ↔ member ∈ newMembers := by
  constructor
  · intro hunchanged
    obtain ⟨newMember, hnew, hsame⟩ := List.mem_map.1 (mem_of_lookup_setAll hunchanged)
    simp only [makeMembershipKey, Prod.mk.injEq] at hsame
    have heq : newMember = member := VersionInfo.ext hsame.1.1 hsame.2 hsame.1.2
    rwa [← heq]
  · intro hmember
    cases hlookup : lookup (makeMembershipKey member) (newVersions newMembers) with
    | none =>
        rw [newVersions, lookup_setAll, lookup_nil, Option.or_none, lookup_eq_none_iff] at hlookup
        refine absurd ?_ hlookup
        rw [List.map_reverse, List.mem_reverse, List.map_map, List.mem_map]
        exact ⟨member, hmember, rfl⟩
    | some version =>
        obtain ⟨newMember, hnew, hsame⟩ := List.mem_map.1 (mem_of_lookup_setAll hlookup)
        simp only [makeMembershipKey, Prod.mk.injEq] at hsame
        have hversion := honeVersion newMember hnew member hmember hsame.1.1
        rw [Unchanged, hlookup, ← hsame.2, hversion]

theorem mem_toUnassign_of_oneVersion (member : VersionInfo) :
    member ∈ (computeCompositionDiff oldMembers newMembers).toUnassign ↔
      member ∈ oldMembers ∧ member ∉ newMembers := by
  have hpass := mem_toUnassign_foldl (newVersions newMembers) oldMembers ⟨[], [], ∅⟩ member
  rw [unchanged_iff_of_oneVersion honeVersion] at hpass
  simpa [computeCompositionDiff] using hpass

theorem mem_toAssign_of_oneVersion (member : VersionInfo) :
    member ∈ (computeCompositionDiff oldMembers newMembers).toAssign ↔
      member ∈ newMembers ∧ member ∉ oldMembers := by
  have hpass := mem_unchanged_foldl (newVersions newMembers) oldMembers ⟨[], [], ∅⟩
    (makeMembershipKey member)
  simp only [Finset.notMem_empty, false_or, unchanged_iff_of_oneVersion honeVersion] at hpass
  simp only [computeCompositionDiff, List.mem_filter, decide_eq_true_eq, hpass]
  refine and_congr_right fun hnew => not_congr ⟨?_, fun hold => ⟨member, hold, rfl, hnew⟩⟩
  rintro ⟨old, hold, hkey, hmem⟩
  simp only [makeMembershipKey, Prod.mk.injEq] at hkey
  have hversion := honeVersion old hmem member hnew hkey.1
  have heq : old = member := VersionInfo.ext hkey.1 hversion hkey.2
  rwa [← heq]

end Difference

section Composes

variable {store : Store} (hstore : TidyStore store) {configuration : String}
  {oldMembers newMembers : List VersionInfo} {D : Set Place}

theorem Composes.mem_iff (hcomposes : Composes store newMembers D) {member : VersionInfo}
    {p : Place} (hplace : Designates store member p) : p ∈ D ↔ member ∈ newMembers := by
  constructor
  · intro hp
    obtain ⟨other, hother, hother'⟩ := hcomposes.named p hp
    rwa [hplace.member_unique hother'] at hother
  · intro hmember
    obtain ⟨q, hq, hplace'⟩ := hcomposes.designates member hmember
    obtain ⟨document, hdocument, -, hhas⟩ := hplace.document
    have hsame : p.1 = q.1 := by rw [hplace.collection, hplace'.collection]
    have hoid : p.2 = q.2 := by
      rw [hsame] at hdocument
      exact hplace'.unique p.2 document hdocument hhas.version ((hhas.entity _).2 rfl)
    rwa [Prod.ext hsame hoid]

include hstore

theorem Composes.mem_changes_iff {members : List VersionInfo}
    (hdesignates : ∀ member ∈ members, ∃ p, Designates store member p) (p : Place) :
    p ∈ (assignments configuration store).changes members ↔
      ∃ member ∈ members, Designates store member p := by
  constructor
  · rintro ⟨member, hmember, hp⟩
    obtain ⟨q, hplace⟩ := hdesignates member hmember
    have hsame : p = q := by
      have hp' : p ∈ writablePlaces store member := hp
      rwa [hplace.writablePlaces_eq hstore, Set.mem_singleton_iff] at hp'
    exact ⟨member, hmember, hsame ▸ hplace⟩
  · rintro ⟨member, hmember, hplace⟩
    refine ⟨member, hmember, ?_⟩
    change p ∈ writablePlaces store member
    rw [hplace.writablePlaces_eq hstore, Set.mem_singleton_iff]

/-- Unassigning and assigning the difference leaves the places of the new members. -/
theorem storedPlaces_eq
    (hold : Composes store oldMembers (carrying configuration store))
    (hnew : Composes store newMembers D) :
    storedPlaces configuration store
      ((computeCompositionDiff oldMembers newMembers).toUnassign,
        (computeCompositionDiff oldMembers newMembers).toAssign) = D := by
  have hunassign := fun member =>
    @mem_toUnassign_of_oneVersion oldMembers _ hnew.oneVersion member
  have hassign := fun member =>
    @mem_toAssign_of_oneVersion oldMembers _ hnew.oneVersion member
  generalize computeCompositionDiff oldMembers newMembers = diff at hunassign hassign
  have hremoved : ∀ p, p ∈ (assignments configuration store).changes diff.toUnassign ↔
      ∃ member ∈ diff.toUnassign, Designates store member p :=
    Composes.mem_changes_iff hstore fun member hmember => by
      obtain ⟨p, -, hplace⟩ := hold.designates member ((hunassign member).1 hmember).1
      exact ⟨p, hplace⟩
  have hadded : ∀ p, p ∈ (assignments configuration store).changes diff.toAssign ↔
      ∃ member ∈ diff.toAssign, Designates store member p :=
    Composes.mem_changes_iff hstore fun member hmember => by
      obtain ⟨p, -, hplace⟩ := hnew.designates member ((hassign member).1 hmember).1
      exact ⟨p, hplace⟩
  ext p
  rw [storedPlaces, Set.mem_union, unassignedPlaces, Set.mem_sdiff, hremoved, hadded]
  constructor
  · rintro (⟨hcarried, hkept⟩ | ⟨member, hmember, hplace⟩)
    · obtain ⟨member, hmember, hplace⟩ := hold.named p hcarried
      by_contra hp
      have hgone : member ∉ newMembers := fun h => hp ((hnew.mem_iff hplace).2 h)
      exact hkept ⟨member, (hunassign member).2 ⟨hmember, hgone⟩, hplace⟩
    · exact (hnew.mem_iff hplace).2 ((hassign member).1 hmember).1
  · intro hp
    obtain ⟨member, hmember, hplace⟩ := hnew.named p hp
    by_cases hmem : member ∈ oldMembers
    · refine Or.inl ⟨(hold.mem_iff hplace).2 hmem, ?_⟩
      rintro ⟨other, hother, hplace'⟩
      rw [hplace.member_unique hplace'] at hother
      exact ((hunassign member).1 hother).2 hmember
    · exact Or.inr ⟨member, (hassign member).2 ⟨hmember, hmem⟩, hplace⟩

end Composes

/-! ## Loading what composes -/

section Alike

variable {store store' : Store} (halike : AlikeStores store store')
include halike

theorem Designates.alike {member : VersionInfo} {p : Place} (hplace : Designates store member p) :
    Designates store' member p := by
  obtain ⟨document, hdocument, hwritable, hmember⟩ := hplace.document
  obtain ⟨document', hdocument', hsame⟩ := halike.documentAt hdocument
  refine ⟨hplace.valid, hplace.collection, ⟨document', hdocument', hsame.writable.2 hwritable, ?_⟩, ?_⟩
  · constructor
    · rw [hsame.documentVersions, hmember.version]
    · intro entity
      rw [hsame.documentEntities, hmember.entity]
  · intro oid other hother hversion hentity
    obtain ⟨other', hother', hsame'⟩ := halike.symm.documentAt hother
    rw [← hsame'.documentVersions] at hversion
    rw [← hsame'.documentEntities] at hentity
    exact hplace.unique oid other' hother' hversion hentity

theorem Composes.alike {members : List VersionInfo} {D : Set Place}
    (hcomposes : Composes store members D) : Composes store' members D where
  designates member hmember := by
    obtain ⟨p, hp, hplace⟩ := hcomposes.designates member hmember
    exact ⟨p, hp, hplace.alike halike⟩
  named p hp := by
    obtain ⟨member, hmember, hplace⟩ := hcomposes.named p hp
    exact ⟨member, hmember, hplace.alike halike⟩
  oneVersion := hcomposes.oneVersion

end Alike

section Load

variable {store : Store} (hstore : TidyStore store) {configuration : OptionText}
  (hprovided : configuration ≠ notprovided) (hstar : NoStar configuration.text)
  {members : List VersionInfo}
include hstore hprovided hstar

/-- A composition whose documents are those of its members is loaded as the members. -/
theorem Composes.load
    (hcomposes : Composes store members (carrying configuration.text store)) (hne : members ≠ []) :
    ∃ loaded, ConfigurationInterface.loadGlobalConfiguration configuration store = .ok loaded ∧
      loaded.Nodup ∧ ∀ member, member ∈ loaded ↔ member ∈ members := by
  have hcarried : ∀ name oid document, documentAt store name oid = some document →
      configuration.text ∈ documentConfigurations document → ∃ member ∈ members,
        Designates store member (name, oid) ∧ HasMember document member := by
    intro name oid document hdocument hcarries
    obtain ⟨member, hmember, hplace⟩ :=
      hcomposes.named (name, oid) ⟨document, hdocument, hcarries⟩
    obtain ⟨other, hother, -, hhas⟩ := hplace.document
    rw [show documentAt store name oid = some other from hother, Option.some.injEq] at hdocument
    rw [← hdocument]
    exact ⟨member, hmember, hplace, hhas⟩
  have hloadable : Loadable configuration.text store := by
    constructor
    · obtain ⟨member, hmember⟩ := List.exists_mem_of_ne_nil _ hne
      obtain ⟨p, ⟨document, hdocument, hcarries⟩, -⟩ := hcomposes.designates member hmember
      exact ⟨p.1, p.2, document, hdocument, hcarries⟩
    · intro name oid document hdocument hcarries
      obtain ⟨member, -, -, hhas⟩ := hcarried name oid document hdocument hcarries
      exact List.ne_nil_of_mem ((hhas.entity member.entity).2 rfl)
    · intro name oid oid' document document' hdocument hdocument' hcarries hcarries'
      obtain ⟨member, hmember, hplace, hhas⟩ := hcarried name oid document hdocument hcarries
      obtain ⟨other, hother, hplace', hhas'⟩ := hcarried name oid' document' hdocument' hcarries'
      have hsame : member.configuration = other.configuration :=
        hplace.collection.symm.trans hplace'.collection
      rw [hhas.version, hhas'.version, hcomposes.oneVersion member hmember other hother hsame]
  obtain ⟨loaded, hload⟩ := (exists_load_iff hstore hprovided hstar).2 hloadable
  have hloaded := loaded_of_load hstore hprovided hstar hload
  have hsingle : ∀ name oid document, documentAt store name oid = some document →
      configuration.text ∈ documentConfigurations document →
      ∃ member, HasMember document member := by
    intro name oid document hdocument hcarries
    obtain ⟨member, -, -, hhas⟩ := hcarried name oid document hdocument hcarries
    exact ⟨member, hhas⟩
  refine ⟨loaded, hload, hloaded.nodup, fun member => ?_⟩
  rw [hloaded.mem_iff hsingle]
  constructor
  · rintro ⟨oid, document, hdocument, hcarries, hhas⟩
    obtain ⟨other, hother, hplace, hhas'⟩ :=
      hcarried member.configuration oid document hdocument hcarries
    obtain ⟨hversion, hentity⟩ := hhas'.unique hhas.version ((hhas.entity _).2 rfl)
    rwa [VersionInfo.ext hplace.collection hversion hentity]
  · intro hmember
    obtain ⟨p, ⟨document, hdocument, hcarries⟩, hplace⟩ := hcomposes.designates member hmember
    obtain ⟨other, hother, -, hhas⟩ := hplace.document
    rw [hdocument, Option.some.injEq] at hother
    rw [← hother] at hhas
    rw [hplace.collection] at hdocument
    exact ⟨p.2, document, hdocument, hcarries, hhas⟩

end Load

/-! ## Storing -/

/-- The search for the composition finds it exactly if some document carries it. -/
def FoundIfCarried (toTimepoint : String → Except Failure ℤ) (configuration : OptionText)
    (store : Store) : Prop :=
  ∃ found, ConfigurationInterface.findGlobalConfigurations toTimepoint configuration store =
      .ok found ∧
    (configuration.text ∈ found ↔ (carrying configuration.text store).Nonempty)

section Store

variable {toTimepoint : String → Except Failure ℤ} {removeTimes assignTimes : ℕ → Clock}
  {messageText : Except Failure (List Value) → String} {unassignOrder assignOrder : TaskOrder}
  {configuration : OptionText} {oldMembers newMembers : List VersionInfo} {D : Set Place}
  {allowOverwrite : Bool} {store : Store} (hstore : TidyStore store)
  (hprovided : configuration ≠ notprovided) (hstar : NoStar configuration.text)
  (hfound : FoundIfCarried toTimepoint configuration store)
  (hold : Composes store oldMembers (carrying configuration.text store))
  (hoverwrite : oldMembers = [] ∨ allowOverwrite = true)
  (hne : newMembers ≠ []) (hnew : Composes store newMembers D)

theorem computeCompositionDiff_nil (newMembers : List VersionInfo) :
    computeCompositionDiff [] newMembers = ⟨[], newMembers, ∅⟩ := by
  simp [computeCompositionDiff]

include hstore hprovided hstar hfound hold hoverwrite in
/-- The call unassigns and assigns the difference to what is there. -/
theorem storeChange_of_composes :
    ∃ current, Composes store current (carrying configuration.text store) ∧
      storeChange toTimepoint configuration newMembers allowOverwrite store =
        .ok ((computeCompositionDiff current newMembers).toUnassign,
          (computeCompositionDiff current newMembers).toAssign) := by
  obtain ⟨found, hsearch, hcarried⟩ := hfound
  by_cases hnil : oldMembers = []
  · have habsent : configuration.text ∉ found := by
      rw [hcarried]
      rintro ⟨p, hp⟩
      obtain ⟨member, hmember, -⟩ := hold.named p hp
      rw [hnil] at hmember
      cases hmember
    refine ⟨[], hnil ▸ hold, ?_⟩
    rw [storeChange, hsearch, computeCompositionDiff_nil]
    simp [bind, Except.bind, habsent, compositionChange, computeCompositionDiff_nil]
  · have hallowed : allowOverwrite = true := hoverwrite.resolve_left hnil
    have hthere : configuration.text ∈ found := by
      rw [hcarried]
      obtain ⟨member, hmember⟩ := List.exists_mem_of_ne_nil _ hnil
      obtain ⟨p, hp, -⟩ := hold.designates member hmember
      exact ⟨p, hp⟩
    obtain ⟨loaded, hload, -, hmem⟩ := hold.load hstore hprovided hstar hnil
    refine ⟨loaded, ⟨?_, ?_, ?_⟩, ?_⟩
    · exact fun member hmember => hold.designates member ((hmem member).1 hmember)
    · intro p hp
      obtain ⟨member, hmember, hplace⟩ := hold.named p hp
      exact ⟨member, (hmem member).2 hmember, hplace⟩
    · exact fun member hmember other hother =>
        hold.oneVersion member ((hmem member).1 hmember) other ((hmem other).1 hother)
    · rw [storeChange, hsearch, hallowed]
      simp [bind, Except.bind, hthere, compositionChange, hload, Except.toOption]

include hstore hstar in
/-- No order of the assignments fails. -/
theorem succeeds_of_composes
    {current : List VersionInfo}
    (hcurrent : Composes store current (carrying configuration.text store))
    (hnew : Composes store newMembers D) {tasks : List VersionInfo}
    (hperm : tasks.Perm (computeCompositionDiff current newMembers).toAssign) :
    Succeeds configuration.text store
      ((computeCompositionDiff current newMembers).toUnassign,
        (computeCompositionDiff current newMembers).toAssign) tasks := by
  have hassign := fun member => @mem_toAssign_of_oneVersion current _ hnew.oneVersion member
  have hplaces := storedPlaces_eq hstore hcurrent hnew
  generalize computeCompositionDiff current newMembers = diff at hassign hplaces hperm ⊢
  rw [storedPlaces, ← Batch.changes_perm _ hperm] at hplaces
  have hplace : ∀ member ∈ tasks, ∃ p ∈ D, Designates store member p := by
    intro member hmember
    exact hnew.designates member ((hassign member).1 (hperm.mem_iff.1 hmember)).1
  refine ⟨fun member hmember => ?_, ?_⟩
  · obtain ⟨p, -, hplace⟩ := hplace member (hperm.mem_iff.2 hmember)
    exact hplace.valid
  change Batch.PassesAll _ (unassignedPlaces configuration.text store diff.toUnassign) tasks
  cases tasks with
  | nil => trivial
  | cons first rest =>
      rw [Batch.passesAll_cons_iff (answerableAt_iff configuration.text store)
        (carriedAt_mono configuration.text store) (entitiesAt_anti configuration.text store), hplaces]
      refine ⟨fun member hmember => ?_, ?_, ?_⟩
      · obtain ⟨p, -, hplace⟩ := hplace member hmember
        obtain ⟨document, -, -, -, hread⟩ := hplace.selects hstore
        exact ⟨document, hread⟩
      · rintro p document hdocument (hp | ⟨value, -, hne, haccept⟩)
        · obtain ⟨member, -, hplace⟩ := hnew.named p hp
          obtain ⟨other, hother, -, hhas⟩ := hplace.document
          rw [hdocument, Option.some.injEq] at hother
          rw [← hother] at hhas
          exact List.ne_nil_of_mem ((hhas.entity member.entity).2 rfl)
        · exact absurd ((acceptValue_of_noStar hstar value).1 haccept) hne
      · obtain ⟨p, -, hplace⟩ := hplace first (by simp)
        obtain ⟨document, hdocument, -⟩ := hplace.selects hstore
        refine ⟨p, document, hdocument, Or.inl (Or.inr ?_)⟩
        change p ∈ writablePlaces store first
        rw [hplace.writablePlaces_eq hstore, Set.mem_singleton_iff]

/-- The call returns, and the composition is loaded as the members. -/
def StoresAndLoads (configuration : OptionText) (members : List VersionInfo) (D : Set Place)
    (call : InPlace Failure Store Unit) (store : Store) : Prop :=
  ∃ store' loaded, call store = .ok () store' ∧
    Reassigning configuration.text store store' D ∧ Composes store' members D ∧
    ConfigurationInterface.loadGlobalConfiguration configuration store' = .ok loaded ∧
    loaded.Nodup ∧ ∀ member, member ∈ loaded ↔ member ∈ members

include hprovided hstar hne hnew in
theorem storesAndLoads_of_reassigning
    {call : InPlace Failure Store Unit} {store' : Store} (hrun : call store = .ok () store')
    (hsim : Reassigning configuration.text store store' D) :
    StoresAndLoads configuration newMembers D call store := by
  have hcomposes := hnew.alike hsim.alike
  have hcarrying : Composes store' newMembers (carrying configuration.text store') := by
    rw [hsim.carrying_eq]
    exact hcomposes
  obtain ⟨loaded, hload, hnodup, hmem⟩ := hcarrying.load hsim.tidy hprovided hstar hne
  exact ⟨store', loaded, hrun, hsim, hcomposes, hload, hnodup, hmem⟩

include hstore hprovided hstar hfound hold hoverwrite hne hnew

theorem serial_storesAndLoads :
    StoresAndLoads configuration newMembers D
      (ConfigurationInterface.storeGlobalConfiguration toTimepoint removeTimes assignTimes
        newMembers configuration.text allowOverwrite) store := by
  obtain ⟨current, hcurrent, hchange⟩ :=
    @storeChange_of_composes _ _ _ newMembers _ _ hstore hprovided hstar hfound hold hoverwrite
  have hsucceeds := succeeds_of_composes hstore hstar hcurrent hnew (List.Perm.refl _)
  obtain ⟨store', hrun, hsim⟩ := (@storeWith_performs removeTimes assignTimes configuration store
    hstore _).succeeds hsucceeds
  rw [storedPlaces_eq hstore hcurrent hnew] at hsim
  refine storesAndLoads_of_reassigning hprovided hstar hne hnew ?_ hsim
  rw [storeGlobalConfiguration_eq hne, bind_run (fetch_ok hchange)]
  exact hrun

theorem parallel_storesAndLoads
    (hlength : newMembers.length < 2 ^ 32) (hunassign : IsTaskOrder unassignOrder)
    (hassign : IsTaskOrder assignOrder) :
    StoresAndLoads configuration newMembers D
      (ConfigurationInterface.storeGlobalConfiguration_mt toTimepoint messageText unassignOrder
        assignOrder newMembers configuration.text allowOverwrite) store := by
  obtain ⟨current, hcurrent, hchange⟩ :=
    @storeChange_of_composes _ _ _ newMembers _ _ hstore hprovided hstar hfound hold hoverwrite
  have hcount := (length_storeChange_le hchange).trans_lt hlength
  have hsucceeds := succeeds_of_composes hstore hstar hcurrent hnew (hassign _)
  obtain ⟨store', hrun, hsim⟩ := (@parallel_performs messageText unassignOrder assignOrder
    configuration store hstore hunassign hassign _ hcount).succeeds hsucceeds
  rw [storedPlaces_eq hstore hcurrent hnew] at hsim
  have hparallel : parallelChange toTimepoint configuration newMembers allowOverwrite store =
      storeChange toTimepoint configuration newMembers allowOverwrite store := by
    obtain ⟨found, hsearch, -⟩ := hfound
    rw [parallelChange, hsearch]
  refine storesAndLoads_of_reassigning hprovided hstar hne hnew ?_ hsim
  rw [storeGlobalConfiguration_mt_eq hne, bind_run (fetch_ok (hparallel.trans hchange))]
  exact hrun

end Store

/-- Each configuration of an indexable document has a time. -/
theorem exists_documentAssignment
    {document : Object} (hindexable : Indexable document) {configuration : String}
    (hcarries : configuration ∈ documentConfigurations document) :
    ∃ assigned, (configuration, assigned) ∈ documentAssignments document := by
  obtain ⟨sections⟩ := hindexable
  have hentries : sectionEntries "configurations" document = sections.configurations := by
    rw [sectionEntries, sections.configurations_lookup]
  rw [documentConfigurations, hentries, mem_namesOf] at hcarries
  obtain ⟨config, hconfig, hname⟩ := hcarries
  obtain ⟨name, assigned, hassignment, -⟩ := sections.configurations_assigned config hconfig
  have hsame : name = configuration := by
    have hfirst := (assignmentOf_eq_ok.1 hassignment).1
    rw [hname, Except.ok.injEq] at hfirst
    exact hfirst.symm
  refine ⟨assigned, mem_documentAssignments.2 ⟨config, ?_, ?_⟩⟩
  · rwa [hentries]
  · rw [hassignment, hsame]

theorem mapM_foundConfiguration (names : List String) :
    ((names.map foundConfiguration).mapM fun result => (do
      let result ← result.getObject
      let query ← objectAt "query" result
      searchedConfiguration (.object query) : Except Failure String)) = .ok names := by
  induction names with
  | nil => rfl
  | cons name names ih =>
      rw [List.map_cons, List.mapM_cons, ih]
      rfl

/-- In a coherent store the search finds what is carried, if all times can be read. -/
theorem foundIfCarried_of_coherent
    {toTimepoint : String → Except Failure ℤ} {configuration : OptionText} {store : Store}
    (hstore : CoherentStore store) (htidy : TidyStore store)
    (hprovided : configuration ≠ notprovided) (hstar : NoStar configuration.text)
    (hentities : EntitiesCarried configuration.text store)
    (hreadable : TimesReadable toTimepoint configuration.text store) :
    FoundIfCarried toTimepoint configuration store := by
  obtain ⟨keys, hkeys⟩ :=
    (exists_mapM_assignedKeys_iff hstore configuration.text toTimepoint).2 ⟨hentities, hreadable⟩
  have hentry := mem_timestampConfigs_iff hstore configuration.text toTimepoint hkeys
  have hsearch : configurationSearch configuration =
      [("configurations.name", .string configuration.text)] := if_neg hprovided
  have hrun := findConfigurations_run hstore configuration.text toTimepoint hkeys
  generalize hnames : (((timestampConfigs (configTimestamps keys.flatten)).filter
    fun config => config.2 ≠ "notprovided").map Prod.snd) = names at hrun
  refine ⟨names.toFinset, ?_, ?_⟩
  · rw [ConfigurationInterface.findGlobalConfigurations, hsearch, hrun]
    exact congrArg (· >>= fun names => Except.ok names.toFinset) (mapM_foundConfiguration names)
  · rw [List.mem_toFinset, ← hnames]
    simp only [List.mem_map, List.mem_filter, hentry, decide_eq_true_eq]
    constructor
    · rintro ⟨config, ⟨⟨-, ⟨time, hrecorded, -⟩, -⟩, -⟩, hname⟩
      obtain ⟨name, oid, document, hdocument, hcarries⟩ := hrecorded.carried
      rw [hname] at hcarries
      exact ⟨(name, oid), document, hdocument, hcarries⟩
    · rintro ⟨p, document, hdocument, hcarries⟩
      have hindexable := htidy.indexable p.1 p.2 document hdocument
      obtain ⟨assigned, hassigned⟩ := exists_documentAssignment hindexable hcarries
      obtain ⟨time, htime⟩ := hreadable p.1 p.2 document configuration.text assigned hdocument
        (acceptValue_self _) hassigned
      have hrecorded : Recorded toTimepoint store configuration.text time :=
        ⟨p.1, p.2, document, hdocument, assigned, hassigned, htime⟩
      have hgreatest := @isGreatest_latest keys.flatten configuration.text
        ⟨timestampKey time, (mem_flatten_assignedKeys hstore _ toTimepoint hkeys _ _).2
          ⟨acceptValue_self _, time, hrecorded, rfl⟩⟩
      have hne : configuration.text ≠ "notprovided" := by
        intro hsame
        apply hprovided
        cases configuration
        simpa [notprovided] using hsame
      have hconfig := (hentry (_, configuration.text)).1
        ((mem_timestampConfigs keys.flatten (_, configuration.text)).2 hgreatest)
      exact ⟨(_, configuration.text), ⟨hconfig, hne⟩, rfl⟩

section Stored

variable {toTimepoint : String → Except Failure ℤ} {removeTimes assignTimes : ℕ → Clock}
  {messageText : Except Failure (List Value) → String} {unassignOrder assignOrder : TaskOrder}
  {configuration : OptionText} {oldMembers newMembers : List VersionInfo} {D : Set Place}
  {allowOverwrite : Bool} {store : Store}

theorem Composes.entitiesCarried
    (hstar : NoStar configuration.text)
    (hold : Composes store oldMembers (carrying configuration.text store)) :
    EntitiesCarried configuration.text store := by
  intro name oid document hdocument haccepted
  have hcarries := (carriesAccepted_iff hstar document).1 haccepted
  obtain ⟨member, -, hplace⟩ := hold.named (name, oid) ⟨document, hdocument, hcarries⟩
  obtain ⟨other, hother, -, hhas⟩ := hplace.document
  rw [show documentAt store name oid = some other from hother, Option.some.injEq] at hdocument
  rw [← hdocument]
  exact List.ne_nil_of_mem ((hhas.entity member.entity).2 rfl)

end Stored

/-! ## An example -/

theorem assignedStore_composes
    {D : Set Place} (hD : D = {("run", "cccccccccccccccccccccccc")}) :
    Composes assignedStore [⟨"run", "v1", "e1"⟩] D := by
  have hplace : Designates assignedStore ⟨"run", "v1", "e1"⟩ ("run", "cccccccccccccccccccccccc") := by
    constructor
    · rfl
    · rfl
    · refine ⟨assignedDocument, documentAt_assignedStore, ?_, ?_, ?_⟩
      · decide +kernel
      · decide +kernel
      · have hentities : documentEntities assignedDocument = ["e1"] := by decide +kernel
        intro entity
        rw [hentities, List.mem_singleton]
    · intro oid document hdocument _ _
      exact (assignedStore_documents hdocument).2.1
  subst hD
  constructor
  · intro member hmember
    rw [List.mem_singleton] at hmember
    rw [hmember]
    exact ⟨_, rfl, hplace⟩
  · rintro p rfl
    exact ⟨_, List.mem_singleton.2 rfl, hplace⟩
  · intro member hmember other hother _
    rw [List.mem_singleton] at hmember hother
    rw [hmember, hother]

theorem carrying_assignedStore :
    carrying "global" assignedStore = {("run", "cccccccccccccccccccccccc")} := by
  have hconfigurations : documentConfigurations assignedDocument = ["global"] := by
    decide +kernel
  ext p
  constructor
  · rintro ⟨document, hdocument, -⟩
    obtain ⟨hname, hoid, -⟩ := assignedStore_documents hdocument
    exact Prod.ext hname hoid
  · rintro rfl
    refine ⟨assignedDocument, documentAt_assignedStore, ?_⟩
    rw [hconfigurations, List.mem_singleton]

end ArtdaqDatabase
