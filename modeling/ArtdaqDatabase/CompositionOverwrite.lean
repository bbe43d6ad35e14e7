import ArtdaqDatabase.BatchUpdate
import ArtdaqDatabase.ConfigurationEdits

/-!
# Overwriting a composition

The members of a composition are places of documents.  Unassigning takes the
configuration from the writable places that the old members select, and assigning gives
it to those that the new ones select, in a batch that stops at the first failure; nothing
that was done is taken back.
-/

namespace ArtdaqDatabase

open OrderedTable InPlaceUpdate BatchUpdate

/-- The collection and the id of a document. -/
abbrev Place := String × String

/-- The places whose documents carry the configuration. -/
def carrying (configuration : String) (store : Store) : Set Place :=
  {p | ∃ document, documentAt store p.1 p.2 = some document ∧
    configuration ∈ documentConfigurations document}

/-- The place of the document that the member selects, if it can be written. -/
def writablePlaces (store : Store) (member : VersionInfo) : Set Place :=
  {p | p.1 = (provided member.configuration).text ∧ ∃ document,
    documentAt store p.1 p.2 = some document ∧
      readDocument (memberSearch member) store = .ok document ∧ Writable document}

/-- The places given to the configuration, and with them the documents with an accepted
one. -/
def AcceptedAt (configuration : String) (D : Set Place) (p : Place) (document : Object) : Prop :=
  p ∈ D ∨ ∃ value ∈ documentConfigurations document,
    value ≠ configuration ∧ acceptValue configuration value

/-- The composition can be listed when the places carry the configuration. -/
structure AnswerableAt (configuration : String) (store : Store) (D : Set Place) : Prop where
  carried : ∃ (p : Place) (document : Object), documentAt store p.1 p.2 = some document ∧
    AcceptedAt configuration D p document
  entities : ∀ (p : Place) document, documentAt store p.1 p.2 = some document →
    AcceptedAt configuration D p document → documentEntities document ≠ []

/-- The assignments: a member that selects nothing stops them before it is assigned, and
a composition that cannot be listed afterwards. -/
def assignments (configuration : String) (store : Store) : Batch VersionInfo Place where
  change := writablePlaces store
  ready member := ∃ document, readDocument (memberSearch member) store = .ok document
  accepts := AnswerableAt configuration store

/-! ## Stores with other places -/

/-- The store has the documents of the first with the configuration at other places. -/
structure Reassigning (configuration : String) (store store' : Store) (D : Set Place) : Prop where
  tidy : TidyStore store'
  alike : AlikeStores store store'
  others : ∀ (p : Place) document document', documentAt store p.1 p.2 = some document →
    documentAt store' p.1 p.2 = some document' → ∀ x, x ≠ configuration →
      (x ∈ documentConfigurations document' ↔ x ∈ documentConfigurations document)
  carried : ∀ (p : Place) document', documentAt store' p.1 p.2 = some document' →
    (configuration ∈ documentConfigurations document' ↔ p ∈ D)
  stored : ∀ p ∈ D, ∃ document, documentAt store p.1 p.2 = some document
  frozen : ∀ (p : Place) document, documentAt store p.1 p.2 = some document →
    ¬ Writable document → (p ∈ D ↔ configuration ∈ documentConfigurations document)

theorem carrying_iff {store : Store} {p : Place} {document : Object}
    (hdocument : documentAt store p.1 p.2 = some document) (configuration : String) :
    p ∈ carrying configuration store ↔ configuration ∈ documentConfigurations document := by
  constructor
  · rintro ⟨other, hother, hcarries⟩
    rw [hdocument, Option.some.injEq] at hother
    rwa [hother]
  · exact fun hcarries => ⟨document, hdocument, hcarries⟩

theorem reassigning_refl {store : Store} (hstore : TidyStore store) (configuration : String) :
    Reassigning configuration store store (carrying configuration store) where
  tidy := hstore
  alike := AlikeStores.refl store
  others p document document' hdocument hdocument' x _ := by
    rw [hdocument, Option.some.injEq] at hdocument'
    rw [hdocument']
  carried p document hdocument := (carrying_iff hdocument configuration).symm
  stored p hp := by
    obtain ⟨document, hdocument, -⟩ := hp
    exact ⟨document, hdocument⟩
  frozen p document hdocument _ := carrying_iff hdocument configuration

section Simulation

variable {configuration : String} {store store' : Store} {D : Set Place}
  (hsim : Reassigning configuration store store' D)
include hsim

theorem Reassigning.accepted_iff
    {p : Place} {document document' : Object} (hdocument : documentAt store p.1 p.2 = some document)
    (hdocument' : documentAt store' p.1 p.2 = some document') :
    CarriesAccepted configuration document' ↔ AcceptedAt configuration D p document := by
  have hcarried := hsim.carried p document' hdocument'
  have hothers := hsim.others p document document' hdocument hdocument'
  constructor
  · rintro ⟨value, hvalue, haccept⟩
    by_cases hsame : value = configuration
    · exact Or.inl (hcarried.1 (hsame ▸ hvalue))
    · exact Or.inr ⟨value, (hothers value hsame).1 hvalue, hsame, haccept⟩
  · rintro (hmem | ⟨value, hvalue, hne, haccept⟩)
    · exact ⟨configuration, hcarried.2 hmem, acceptValue_self configuration⟩
    · exact ⟨value, (hothers value hne).2 hvalue, haccept⟩

/-- Whether the composition can be listed depends on the places alone. -/
theorem Reassigning.answerable_iff :
    Answerable configuration store' ↔ AnswerableAt configuration store D := by
  constructor
  · rintro ⟨⟨name, oid, document', hdocument', hcarries⟩, hentities⟩
    constructor
    · obtain ⟨document, hdocument, -⟩ := hsim.alike.symm.documentAt hdocument'
      exact ⟨(name, oid), document, hdocument, (hsim.accepted_iff hdocument hdocument').1 hcarries⟩
    · intro p document hdocument haccepted
      obtain ⟨document', hdocument', halike⟩ := hsim.alike.documentAt hdocument
      rw [← halike.documentEntities]
      exact hentities p.1 p.2 document' hdocument'
        ((hsim.accepted_iff hdocument hdocument').2 haccepted)
  · rintro ⟨⟨p, document, hdocument, haccepted⟩, hentities⟩
    constructor
    · obtain ⟨document', hdocument', -⟩ := hsim.alike.documentAt hdocument
      exact ⟨p.1, p.2, document', hdocument', (hsim.accepted_iff hdocument hdocument').2 haccepted⟩
    · intro name oid document' hdocument' hcarries
      obtain ⟨document, hdocument, halike⟩ := hsim.alike.symm.documentAt hdocument'
      rw [← halike.documentEntities]
      exact hentities (name, oid) document hdocument
        ((@Reassigning.accepted_iff _ _ _ _ hsim (name, oid) _ _ hdocument hdocument').1 hcarries)

/-- The places that carry the configuration are those of the simulation. -/
theorem Reassigning.carrying_eq : carrying configuration store' = D := by
  ext p
  constructor
  · rintro ⟨document', hdocument', hcarries⟩
    exact (hsim.carried p document' hdocument').1 hcarries
  · intro hp
    obtain ⟨document, hdocument⟩ := hsim.stored p hp
    obtain ⟨document', hdocument', -⟩ := hsim.alike.documentAt hdocument
    exact ⟨document', hdocument', (hsim.carried p document' hdocument').2 hp⟩

end Simulation

/-! ## One member -/

/-- The places after an edit. -/
def ConfigurationEdit.places (edit : ConfigurationEdit) (D P : Set Place) : Set Place :=
  match edit with
  | .assign => D ∪ P
  | .remove => D \ P

theorem ConfigurationEdit.mem_places (edit : ConfigurationEdit) (D P : Set Place) (p : Place) :
    p ∈ edit.places D P ↔ p ∈ P ∧ edit = .assign ∨ p ∉ P ∧ p ∈ D := by
  cases edit <;> by_cases hmem : p ∈ P <;> simp [ConfigurationEdit.places, hmem]

section Member

variable {configuration : OptionText} {store store' : Store} {D : Set Place}
  (hstore : TidyStore store) (hsim : Reassigning configuration.text store store' D)
  {member : VersionInfo}
include hstore

/-- The place of a selected document is its own. -/
theorem mem_writablePlaces
    {oid : String} {document : Object}
    (hdocument : documentAt store (provided member.configuration).text oid = some document)
    (hread : readDocument (memberSearch member) store = .ok document) (p : Place) :
    p ∈ writablePlaces store member ↔
      (p.1 = (provided member.configuration).text ∧ p.2 = oid) ∧ Writable document := by
  constructor
  · rintro ⟨hname, other, hother, hselected, hwritable⟩
    rw [hread, Except.ok.injEq] at hselected
    subst hselected
    have hid := (hstore.placed _ _ _ hother).id
    rw [(hstore.placed _ _ _ hdocument).id] at hid
    simp only [Option.some.injEq, Value.object.injEq, List.cons.injEq, Prod.mk.injEq,
      Value.string.injEq, true_and, and_true] at hid
    exact ⟨⟨hname, hid.symm⟩, hwritable⟩
  · rintro ⟨⟨hname, hoid⟩, hwritable⟩
    exact ⟨hname, document, by rw [hname, hoid, hdocument], hread, hwritable⟩

include hsim

/-- The member selects alike documents at one place of both stores, or none in either. -/
theorem Reassigning.selects_iff :
    (∃ document, readDocument (memberSearch member) store' = .ok document) ↔
      ∃ document, readDocument (memberSearch member) store = .ok document := by
  constructor
  · rintro ⟨document, hread⟩
    obtain ⟨document', hread', -⟩ :=
      readDocument_alike hsim.tidy hstore hsim.alike.symm hread
    exact ⟨document', hread'⟩
  · rintro ⟨document, hread⟩
    obtain ⟨document', hread', -⟩ := readDocument_alike hstore hsim.tidy hsim.alike hread
    exact ⟨document', hread'⟩

/-- An edit of a member that selects a document: the writable place is edited, and the
call returns exactly if the composition can be listed afterwards. -/
theorem Reassigning.edit
    (hselects : ∃ document, readDocument (memberSearch member) store = .ok document)
    (clock : Clock) (edit : ConfigurationEdit) :
    Reassigning configuration.text store
        (after (editConfiguration clock edit (memberOptions edit configuration member)) store')
        (edit.places D (writablePlaces store member)) ∧
      ((∃ queries store'',
          editConfiguration clock edit (memberOptions edit configuration member) store' =
            .ok queries store'') ↔
        AnswerableAt configuration.text store
          (edit.places D (writablePlaces store member))) := by
  obtain ⟨document, hread⟩ := hselects
  obtain ⟨document', hread', oid, hdocument, hdocument'⟩ :=
    readDocument_alike hstore hsim.tidy hsim.alike hread
  have hplaced := hsim.tidy.placed _ _ _ hdocument'
  have hindexable := hsim.tidy.indexable _ _ _ hdocument'
  obtain ⟨hlisted, hdocuments, hreturns⟩ := editConfiguration_spec hsim.tidy.toListedStore
    hdocument' hplaced hindexable clock
    (by rw [selectDocument_memberOptions edit configuration member store', hread'])
    (show (memberOptions edit configuration member).operation = edit.name from rfl)
  have hspec : Reassigned edit configuration.text document'
      (reassigned clock edit (memberOptions edit configuration member) document') :=
    @reassigned_spec _ _ _ (memberOptions edit configuration member) edit hplaced hindexable clock
  have hown := @placed_reassigned _ _ _ (memberOptions edit configuration member) edit
    hplaced hindexable clock
  obtain ⟨other, hother, halike⟩ := hsim.alike.documentAt hdocument
  rw [hdocument', Option.some.injEq] at hother
  subst hother
  set after' := after (editConfiguration clock edit (memberOptions edit configuration member))
    store' with hafter
  clear_value after'
  generalize reassigned clock edit (memberOptions edit configuration member) document' =
    edited at hdocuments hspec hown
  have hkept : Alike document' edited :=
    ⟨hspec.lookup_eq "version" (by decide), hspec.lookup_eq "entities" (by decide),
      hspec.writable_iff⟩
  have hsim' : Reassigning configuration.text store after'
      (edit.places D (writablePlaces store member)) := by
    refine ⟨⟨hlisted, ?_, ?_⟩, ?_, ?_, ?_, ?_, ?_⟩
    · intro name' oid' found hfound
      rw [hdocuments] at hfound
      split at hfound
      · rename_i hplace
        rw [hplace.1, hplace.2, ← Option.some.inj hfound]
        exact hown
      · exact hsim.tidy.placed _ _ _ hfound
    · intro name' oid' found hfound
      rw [hdocuments] at hfound
      split at hfound
      · rw [← Option.some.inj hfound]
        exact hspec.indexable
      · exact hsim.tidy.indexable _ _ _ hfound
    · intro name' oid'
      rw [hdocuments]
      split
      · rename_i hplace
        rw [hplace.1, hplace.2, hdocument]
        exact Option.Rel.some (halike.trans hkept)
      · exact hsim.alike name' oid'
    · intro p first found hfirst hfound x hx
      rw [hdocuments] at hfound
      split at hfound
      · rename_i hplace
        rw [hplace.1, hplace.2, hdocument, Option.some.injEq] at hfirst
        rw [← Option.some.inj hfound, hspec.others x hx, ← hfirst]
        exact hsim.others (_, oid) document document' hdocument hdocument' x hx
      · exact hsim.others p first found hfirst hfound x hx
    · intro p found hfound
      rw [edit.mem_places, mem_writablePlaces hstore hdocument hread]
      rw [hdocuments] at hfound
      split at hfound
      · rename_i hplace
        have hcarried := hsim.carried ((provided member.configuration).text, oid) document' hdocument'
        have hp : p = ((provided member.configuration).text, oid) := Prod.ext hplace.1 hplace.2
        rw [← Option.some.inj hfound, hspec.carries_iff, hp, ← halike.writable]
        by_cases hwritable : Writable document'
        · simp [hwritable]
        · simp [hwritable, hcarried]
      · rename_i hplace
        simp only [hplace, false_and, false_or, not_false_eq_true, true_and]
        exact hsim.carried p found hfound
    · intro p hp
      rcases (edit.mem_places _ _ p).1 hp with ⟨⟨-, found, hfound, -⟩, -⟩ | ⟨-, hmem⟩
      · exact ⟨found, hfound⟩
      · exact hsim.stored p hmem
    · intro p found hfound hfrozen
      have hnot : p ∉ writablePlaces store member := by
        rintro ⟨-, other, hother, -, hwritable⟩
        rw [hfound, Option.some.injEq] at hother
        exact hfrozen (hother ▸ hwritable)
      simp only [edit.mem_places, hnot, false_and, not_false_eq_true, true_and, false_or]
      exact hsim.frozen p found hfound hfrozen
  exact ⟨hsim', hreturns.trans hsim'.answerable_iff⟩

/-- An edit of a member that selects nothing throws and leaves the store. -/
theorem Reassigning.edit_unselected
    (hselects : ¬ ∃ document, readDocument (memberSearch member) store = .ok document)
    (clock : Clock) (edit : ConfigurationEdit) :
    ∃ e, editConfiguration clock edit (memberOptions edit configuration member) store' =
      .error e store' := by
  rw [← hsim.selects_iff hstore] at hselects
  cases hread : readDocument (memberSearch member) store' with
  | ok document => exact absurd ⟨document, hread⟩ hselects
  | error e =>
      have hselect : selectDocument (memberOptions edit configuration member) store' = .error e := by
        rw [selectDocument_memberOptions, hread]
      have hconfirm : confirm (decide
          ((memberOptions edit configuration member).operation = edit.name)) = .ok () := by
        simp [confirm, memberOptions]
      have hpayload : configurationPayload clock edit (memberOptions edit configuration member)
          store' = .error e := by
        rw [configurationPayload, hconfirm]
        simp only [hselect, bind, Except.bind]
      refine ⟨e, ?_⟩
      rw [editConfiguration, rewriteConfiguration]
      exact bind_error (bind_error (fetch_error hpayload))

end Member

/-! ## The members -/

section Members

variable {configuration : OptionText} {store store' : Store} {D : Set Place}
  (hstore : TidyStore store)
include hstore

/-- A removal takes the place of the member, also if it throws. -/
theorem Reassigning.unassign
    (hsim : Reassigning configuration.text store store' D) (member : Clock × VersionInfo) :
    Reassigning configuration.text store
      (after (editConfiguration member.1 .remove (memberOptions .remove configuration member.2))
        store')
      (D \ writablePlaces store member.2) := by
  by_cases hselects : ∃ document, readDocument (memberSearch member.2) store = .ok document
  · exact (hsim.edit hstore hselects member.1 .remove).1
  · obtain ⟨e, hrun⟩ := hsim.edit_unselected hstore hselects member.1 .remove
    have hempty : writablePlaces store member.2 = ∅ := by
      ext p
      simp only [writablePlaces, Set.mem_ofPred_eq, Set.mem_empty_iff_false, iff_false]
      rintro ⟨-, document, -, hread, -⟩
      exact hselects ⟨document, hread⟩
    rw [after, hrun, hempty, Set.sdiff_empty]
    exact hsim

/-- The removals always end, and each takes its place. -/
theorem unassignMembers_run
    (hsim : Reassigning configuration.text store store' D)
    (members : List (Clock × VersionInfo)) :
    ∃ store'', unassignMembers configuration members store' = .ok () store'' ∧
      Reassigning configuration.text store store''
        (D \ (assignments configuration.text store).changes (members.map Prod.snd)) := by
  induction members generalizing store' D with
  | nil =>
      refine ⟨store', rfl, ?_⟩
      simpa using hsim
  | cons member members ih =>
      have hfirst : Reassigning configuration.text store
          (after (unassignMember configuration member) store')
          (D \ writablePlaces store member.2) := by
        rw [unassignMember, after_bind_pure]
        exact hsim.unassign hstore member
      obtain ⟨store'', hrest, hsim'⟩ := ih hfirst
      refine ⟨store'', ?_, ?_⟩
      · have hcons : unassignMembers configuration (member :: members) =
            ((tryCatch (unassignMember configuration member) fun _ => pure ()) >>= fun _ =>
              unassignMembers configuration members) := rfl
        rw [hcons, bind_run (forgiven_run _ _)]
        exact hrest
      · rw [List.map_cons, Batch.changes_cons, ← Set.sdiff_sdiff]
        exact hsim'

/-- An assignment passes or fails as the batch says. -/
theorem editConfiguration_implements (member : Clock × VersionInfo) :
    Implements (assignments configuration.text store) (Reassigning configuration.text store)
      (editConfiguration member.1 .assign (memberOptions .assign configuration member.2))
      member.2 where
  passes store' D hsim hpasses := by
    obtain ⟨hafter, hreturns⟩ := hsim.edit hstore hpasses.1 member.1 .assign
    obtain ⟨queries, store'', hrun⟩ := hreturns.2 hpasses.2
    refine ⟨queries, store'', hrun, ?_⟩
    rwa [after, hrun] at hafter
  refused store' D hsim hready haccepts := by
    obtain ⟨hafter, hreturns⟩ := hsim.edit hstore hready member.1 .assign
    cases hrun : editConfiguration member.1 .assign
        (memberOptions .assign configuration member.2) store' with
    | ok queries store'' => exact absurd (hreturns.1 ⟨queries, store'', hrun⟩) haccepts
    | error e store'' =>
        refine ⟨e, store'', rfl, ?_⟩
        rwa [after, hrun] at hafter
  unready store' D hsim hready := by
    obtain ⟨e, hrun⟩ := hsim.edit_unselected hstore hready member.1 .assign
    exact ⟨e, store', hrun, hsim⟩

theorem assignMember_implements (member : Clock × VersionInfo) :
    Implements (assignments configuration.text store) (Reassigning configuration.text store)
      (assignMember configuration member) member.2 :=
  (editConfiguration_implements hstore member).forget

end Members

/-! ## The overwrite -/

def alreadyExists (configuration : String) : Failure :=
  .runtimeError ("Global configuration '" ++ configuration ++ "' already exists. " ++
    "Use allowOverwrite=true to update an existing configuration.")

/-- What a call of `storeGlobalConfiguration` unassigns and assigns. -/
def storeChange (toTimepoint : String → Except Failure ℤ) (configuration : OptionText)
    (newMembers : List VersionInfo) (allowOverwrite : Bool) (store : Store) :
    Except Failure (List VersionInfo × List VersionInfo) := do
  let existingConfigs ← ConfigurationInterface.findGlobalConfigurations toTimepoint configuration store
  let compositionExists := decide (configuration.text ∈ existingConfigs)
  if compositionExists && !allowOverwrite then .error (alreadyExists configuration.text)
  else .ok (compositionChange configuration newMembers compositionExists allowOverwrite store)

/-- The places that carry the configuration once the old members are unassigned. -/
def unassignedPlaces (configuration : String) (store : Store) (toUnassign : List VersionInfo) :
    Set Place :=
  carrying configuration store \ (assignments configuration store).changes toUnassign

/-- Where a failed overwrite ends, once the old members are unassigned: at a member that
does not validate, or at the assignment that stops the batch. -/
inductive EndsAt (configuration : String) (store : Store)
    (change : List VersionInfo × List VersionInfo) : Set Place → Prop
  | invalid (member : VersionInfo) (hmem : member ∈ change.2) (hinvalid : member.validate ≠ .ok ()) :
      EndsAt configuration store change (unassignedPlaces configuration store change.1)
  | stopped {D : Set Place} (hvalid : ∀ member ∈ change.2, member.validate = .ok ())
      (hrun : (assignments configuration store).Run
        (unassignedPlaces configuration store change.1) change.2 false D) :
      EndsAt configuration store change D

/-- The documents are where they were, each with its configurations. -/
def KeepsConfigurations (store store' : Store) : Prop :=
  ∀ p : Place, Option.Rel
    (fun document document' =>
      ∀ x, x ∈ documentConfigurations document' ↔ x ∈ documentConfigurations document)
    (documentAt store p.1 p.2) (documentAt store' p.1 p.2)

/-- A failed overwrite: no other configuration is gained or lost, and none at all by a
frozen document; the configuration is carried at the places where the call ended. -/
structure FailsOverwriting (toTimepoint : String → Except Failure ℤ) (configuration : OptionText)
    (newMembers : List VersionInfo) (store store' : Store) : Prop where
  documents : ∀ p : Place, Option.Rel
    (fun document document' =>
      ∀ x, x ≠ configuration.text ∨ ¬ Writable document →
        (x ∈ documentConfigurations document' ↔ x ∈ documentConfigurations document))
    (documentAt store p.1 p.2) (documentAt store' p.1 p.2)
  early : (newMembers = [] ∨ ∃ e, storeChange toTimepoint configuration newMembers true store =
    .error e) → store' = store
  ends : ∀ change, newMembers ≠ [] →
    storeChange toTimepoint configuration newMembers true store = .ok change →
      EndsAt configuration.text store change (carrying configuration.text store')
  intact_iff : KeepsConfigurations store store' ↔
    carrying configuration.text store' = carrying configuration.text store

/-- A call with members, once its change is known. -/
def storeWith (removeTimes assignTimes : ℕ → Clock) (configuration : OptionText)
    (change : List VersionInfo × List VersionInfo) : InPlace Failure Store Unit := do
  unassignMembers configuration (atTimes removeTimes change.1)
  if change.2 = [] then pure ()
  else do
    lift (change.2.forM VersionInfo.validate)
    createConfiguration configuration (atTimes assignTimes change.2)

section Overwrite

variable {toTimepoint : String → Except Failure ℤ} {removeTimes assignTimes : ℕ → Clock}
  {configuration : OptionText} {newMembers : List VersionInfo} {allowOverwrite : Bool}
  {store : Store}

theorem storeGlobalConfiguration_nil (removeTimes assignTimes : ℕ → Clock) (configuration : String)
    (allowOverwrite : Bool) (store : Store) :
    ∃ e, ConfigurationInterface.storeGlobalConfiguration toTimepoint removeTimes assignTimes []
      configuration allowOverwrite store = .error e store :=
  ⟨_, rfl⟩

theorem storeGlobalConfiguration_eq (hmembers : newMembers ≠ []) :
    ConfigurationInterface.storeGlobalConfiguration toTimepoint removeTimes assignTimes newMembers
        configuration.text allowOverwrite store =
      (fetch (storeChange toTimepoint configuration newMembers allowOverwrite) >>=
        storeWith removeTimes assignTimes configuration) store := by
  unfold ConfigurationInterface.storeGlobalConfiguration
  rw [if_neg hmembers, dif_neg configuration.text_ne]
  change (fetch (ConfigurationInterface.findGlobalConfigurations toTimepoint configuration) >>= _)
    store = _
  cases hfound : ConfigurationInterface.findGlobalConfigurations toTimepoint configuration store with
  | error e =>
      have hchange : storeChange toTimepoint configuration newMembers allowOverwrite store =
          .error e := by
        rw [storeChange, hfound]
        rfl
      rw [bind_error (fetch_error hchange)]
      exact bind_error (fetch_error hfound)
  | ok existingConfigs =>
      rw [bind_run (fetch_ok hfound)]
      cases hrefused : decide (configuration.text ∈ existingConfigs) && !allowOverwrite with
      | true =>
          have hchange : storeChange toTimepoint configuration newMembers allowOverwrite store =
              .error (alreadyExists configuration.text) := by
            rw [storeChange, hfound]
            simp only [bind, Except.bind, hrefused, if_true]
          rw [bind_error (fetch_error hchange)]
          simp only [if_true]
          rfl
      | false =>
          have hchange : storeChange toTimepoint configuration newMembers allowOverwrite store =
              .ok (compositionChange configuration newMembers
                (decide (configuration.text ∈ existingConfigs)) allowOverwrite store) := by
            rw [storeChange, hfound]
            simp only [bind, Except.bind, hrefused, Bool.false_eq_true, if_false]
          rw [bind_run (fetch_ok hchange)]
          simp only [Bool.false_eq_true, if_false]
          rfl

theorem map_snd_atTimes (times : ℕ → Clock) (members : List VersionInfo) :
    (atTimes times members).map Prod.snd = members := by
  simp [atTimes, Function.comp_def, List.zipIdx_map_fst]

theorem forM_validate_eq_ok_iff {members : List VersionInfo} :
    members.forM VersionInfo.validate = .ok () ↔ ∀ member ∈ members, member.validate = .ok () := by
  induction members with
  | nil => simp [List.forM, pure, Except.pure]
  | cons member members ih =>
      have hcons : (member :: members).forM VersionInfo.validate =
          (member.validate >>= fun _ => members.forM VersionInfo.validate) := rfl
      rw [hcons, List.forall_mem_cons, ← ih]
      cases hmember : member.validate with
      | error e => simp [bind, Except.bind]
      | ok u => simp [bind, Except.bind]

/-- A call that fails leaves the places where it ends. -/
theorem storeWith_failed
    (hstore : TidyStore store) {change : List VersionInfo × List VersionInfo} {e : Failure}
    {store' : Store}
    (hfail : storeWith removeTimes assignTimes configuration change store = .error e store') :
    ∃ D, Reassigning configuration.text store store' D ∧
      EndsAt configuration.text store change D := by
  obtain ⟨store₁, hunassign, hsim⟩ := unassignMembers_run hstore
    (reassigning_refl hstore configuration.text) (atTimes removeTimes change.1)
  rw [map_snd_atTimes] at hsim
  change Reassigning _ _ _ (unassignedPlaces configuration.text store change.1) at hsim
  rw [storeWith, bind_run hunassign] at hfail
  by_cases hnone : change.2 = []
  · rw [if_pos hnone] at hfail
    cases hfail
  rw [if_neg hnone] at hfail
  cases hvalid : change.2.forM VersionInfo.validate with
  | error e' =>
      rw [bind_error (lift_run_error hvalid store₁)] at hfail
      cases hfail
      have hinvalid : ¬ ∀ member ∈ change.2, member.validate = .ok () := by
        rw [← forM_validate_eq_ok_iff, hvalid]
        simp
      push Not at hinvalid
      obtain ⟨member, hmem, hinvalid⟩ := hinvalid
      exact ⟨_, hsim, EndsAt.invalid member hmem hinvalid⟩
  | ok u =>
      rw [bind_run (lift_run hvalid store₁)] at hfail
      rcases run_forM (fun member _ => assignMember_implements hstore member) hsim with
        ⟨store₂, D, hrun, -, -⟩ | ⟨e', store₂, D, hrun, hsim', hbatch⟩
      · rw [createConfiguration, hrun] at hfail
        cases hfail
      · rw [createConfiguration, hrun] at hfail
        cases hfail
        rw [map_snd_atTimes] at hbatch
        exact ⟨D, hsim', EndsAt.stopped (forM_validate_eq_ok_iff.1 hvalid) hbatch⟩

/-- The documents of a simulation keep what is no part of it. -/
theorem Reassigning.documents
    {store' : Store} {D : Set Place} (hsim : Reassigning configuration.text store store' D)
    (p : Place) :
    Option.Rel
      (fun document document' =>
        ∀ x, x ≠ configuration.text ∨ ¬ Writable document →
          (x ∈ documentConfigurations document' ↔ x ∈ documentConfigurations document))
      (documentAt store p.1 p.2) (documentAt store' p.1 p.2) := by
  have hplace := hsim.alike p.1 p.2
  have hothers := hsim.others p
  have hcarried := hsim.carried p
  have hfrozen := hsim.frozen p
  generalize documentAt store p.1 p.2 = first at hplace hothers hfrozen ⊢
  generalize documentAt store' p.1 p.2 = second at hplace hothers hcarried ⊢
  cases hplace with
  | none => exact Option.Rel.none
  | @some document document' halike =>
      refine Option.Rel.some fun x hx => ?_
      by_cases hsame : x = configuration.text
      · have hnot : ¬ Writable document := hx.resolve_left fun hne => hne hsame
        rw [hsame, hcarried document' rfl, hfrozen document rfl hnot]
      · exact hothers document document' rfl rfl x hsame

theorem Reassigning.keeps_iff
    {store' : Store} {D : Set Place} (hsim : Reassigning configuration.text store store' D) :
    KeepsConfigurations store store' ↔ D = carrying configuration.text store := by
  constructor
  · intro hkeeps
    ext p
    constructor
    · intro hp
      obtain ⟨document, hdocument⟩ := hsim.stored p hp
      obtain ⟨document', hdocument', -⟩ := hsim.alike.documentAt hdocument
      have hplace := hkeeps p
      rw [hdocument, hdocument'] at hplace
      cases hplace with
      | some hsame =>
          rw [carrying_iff hdocument, ← hsame, hsim.carried p document' hdocument']
          exact hp
    · rintro ⟨document, hdocument, hcarries⟩
      obtain ⟨document', hdocument', -⟩ := hsim.alike.documentAt hdocument
      have hplace := hkeeps p
      rw [hdocument, hdocument'] at hplace
      cases hplace with
      | some hsame =>
          rw [← hsim.carried p document' hdocument', hsame]
          exact hcarries
  · intro hsame p
    cases hdocument : documentAt store p.1 p.2 with
    | none =>
        cases hdocument' : documentAt store' p.1 p.2 with
        | none => exact Option.Rel.none
        | some document' =>
            obtain ⟨document, hstored, -⟩ := hsim.alike.symm.documentAt hdocument'
            rw [hdocument] at hstored
            cases hstored
    | some document =>
        obtain ⟨document', hdocument', -⟩ := hsim.alike.documentAt hdocument
        rw [hdocument']
        refine Option.Rel.some fun x => ?_
        by_cases hx : x = configuration.text
        · rw [hx, hsim.carried p document' hdocument', hsame, carrying_iff hdocument]
        · exact hsim.others p document document' hdocument hdocument' x hx

end Overwrite

/-! ## A member that is lost -/

theorem assignedStore_documents
    {name oid : String} {document : Object}
    (hdocument : documentAt assignedStore name oid = some document) :
    name = "run" ∧ oid = "cccccccccccccccccccccccc" ∧ document = assignedDocument := by
  obtain ⟨c, hmem, hstored⟩ := exists_mem_of_documentAt hdocument
  have hall : ∀ entry ∈ assignedStore, entry.1 = "run" ∧ ∀ stored ∈ entry.2.documents,
      stored.1 = "cccccccccccccccccccccccc" ∧ stored.2 = assignedDocument := by
    decide +kernel
  obtain ⟨hname, hstoreds⟩ := hall _ hmem
  exact ⟨hname, hstoreds _ (mem_of_lookup hstored)⟩

theorem assignedStore_tidy : TidyStore assignedStore where
  toListedStore := assignedStore_coherent.listed
  placed name oid document hdocument := by
    obtain ⟨rfl, rfl, rfl⟩ := assignedStore_documents hdocument
    exact placed_reassigned exampleDocument_placed exampleDocument_indexable exampleClock
  indexable name oid document hdocument := by
    obtain ⟨rfl, rfl, rfl⟩ := assignedStore_documents hdocument
    exact assignedDocument_indexable

/-- Overwrite the example composition by a member that does not exist. -/
def overwriteByMissing : InPlace Failure Store Unit :=
  ConfigurationInterface.storeGlobalConfiguration (fun _ => .ok 0) (fun _ => exampleClock)
    (fun _ => exampleClock) [⟨"timing", "v1", "e1"⟩] "global" true

def isFailure {α : Type} : EStateM.Result Failure Store α → Bool
  | .ok _ _ => false
  | .error _ _ => true

theorem overwriteByMissing_fails :
    ∃ e, overwriteByMissing assignedStore = .error e (after overwriteByMissing assignedStore) := by
  have hfails : isFailure (overwriteByMissing assignedStore) = true := by decide +kernel
  rw [after]
  cases hrun : overwriteByMissing assignedStore with
  | ok u store' =>
      rw [hrun] at hfails
      cases hfails
  | error e store' => exact ⟨e, rfl⟩

end ArtdaqDatabase
