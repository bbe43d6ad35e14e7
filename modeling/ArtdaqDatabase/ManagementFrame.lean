import ArtdaqDatabase.StoredIds

/-!
# The frame of a list edit

An entity or an alias that is added to or removed from a document which is
neither readonly nor deleted.  The write applies its options to the record after
the edit, and those that are not given are applied under the name `notprovided`.
-/

namespace ArtdaqDatabase

open OrderedTable InPlaceUpdate

/-! ## The options of a write -/

/-- What the options of a write make of a record. -/
structure OptionEffects
    (clock : Clock) (options : ManageDocumentOperation) (record record' : Object) : Prop where
  kept : Kept record record'
  configurations : ∀ entries, lookup "configurations" record = some (.array entries) →
    lookup "configurations" record' =
      some (.array (addNamed (stamped (clock 0) options.configuration.text) entries))
  version : lookup "version" record' = some (.string options.version.text)
  collection : lookup "collection" record' = some (.string options.collection.text)
  entities : ∀ entries, lookup "entities" record = some (.array entries) →
    lookup "entities" record' =
      some (.array (addNamed (stamped (clock 3) options.entity.text) entries))
  runs : ∀ entries, lookup "runs" record = some (.array entries) →
    lookup "runs" record' =
      some (.array (if options.run = notprovided then entries
        else addNamed (stamped (clock 4) options.run.text) entries))
  others : ∀ k, k ∉ optionKeys → lookup k record' = lookup k record

section Options

variable {record : Object} (clock : Clock) (options : ManageDocumentOperation)

/-- The record after the four edits that are always made. -/
theorem requiredEdits_effects
    (haccepted : Accepted record) (hwritable : Writable record) {record' : Object}
    (hrecord' : record' = builderEdits record
      [(clock 0, .addConfiguration (named options.configuration.text)),
        (clock 1, .setVersion (named options.version.text)),
        (clock 2, .setCollection (.object [("collection", .string options.collection.text)])),
        (clock 3, .addEntity (named options.entity.text))]) :
    Kept record record' ∧
      (∀ entries, lookup "configurations" record = some (.array entries) →
        lookup "configurations" record' =
          some (.array (addNamed (stamped (clock 0) options.configuration.text) entries))) ∧
      lookup "version" record' = some (.string options.version.text) ∧
      (∀ entries, lookup "entities" record = some (.array entries) →
        lookup "entities" record' =
          some (.array (addNamed (stamped (clock 3) options.entity.text) entries))) := by
  have hconfiguration := addConfiguration_edit (clock 0) haccepted hwritable
    options.configuration.text
  have hkept := hconfiguration.kept
  have hversion := setVersion_edit (clock 1) hkept.accepted (hkept.writable hwritable)
    options.version.text options.version.text_ne
  have hkept' := hkept.trans hversion.1
  have hcollection := setCollection_edit (clock 2) hkept'.accepted (hkept'.writable hwritable)
    options.collection.text options.collection.text_ne
  have hkept'' := hkept'.trans hcollection.1
  have hentity := addEntity_edit (clock 3) hkept''.accepted (hkept''.writable hwritable)
    options.entity.text
  rw [builderEdits, GuardedRun.run_cons, GuardedRun.run_cons, GuardedRun.run_cons,
    GuardedRun.run_cons, GuardedRun.run_nil] at hrecord'
  subst hrecord'
  refine ⟨hkept''.trans hentity.kept, fun entries hentries => ?_, ?_, fun entries hentries => ?_⟩
  · rw [lookup_builderEdit_of_untouched (by simp [touchedKeys]),
      lookup_builderEdit_of_untouched (by simp [touchedKeys]),
      lookup_builderEdit_of_untouched (by simp [touchedKeys])]
    exact hconfiguration.entries_eq entries hentries
  · rw [lookup_builderEdit_of_untouched (by simp [touchedKeys]),
      lookup_builderEdit_of_untouched (by simp [touchedKeys])]
    exact hversion.2
  · apply hentity.entries_eq
    rw [lookup_builderEdit_of_untouched (by simp [touchedKeys]),
      lookup_builderEdit_of_untouched (by simp [touchedKeys]),
      lookup_builderEdit_of_untouched (by simp [touchedKeys]), hentries]

theorem optionEdits_effects
    (haccepted : Accepted record) (hwritable : Writable record) :
    OptionEffects clock options record (builderEdits record (optionEdits clock options)) := by
  obtain ⟨hkept, hconfigurations, hversion, hentities⟩ :=
    requiredEdits_effects clock options haccepted hwritable rfl
  have hothers : ∀ k, k ∉ optionKeys →
      lookup k (builderEdits record (optionEdits clock options)) = lookup k record :=
    fun k hk => lookup_builderEdits_of_untouched
      (fun p hp => touchedKeys_optionEdits hp hk) record
  have hcollection := collection_optionEdits clock options haccepted hwritable
  have hruns : ∀ entries, lookup "runs" record = some (.array entries) →
      lookup "runs" (builderEdits record
        [(clock 0, .addConfiguration (named options.configuration.text)),
          (clock 1, .setVersion (named options.version.text)),
          (clock 2, .setCollection (.object [("collection", .string options.collection.text)])),
          (clock 3, .addEntity (named options.entity.text))]) = some (.array entries) := by
    intro entries hentries
    rw [← hentries]
    apply lookup_builderEdits_of_untouched
    simp [touchedKeys]
  by_cases hrun : options.run = notprovided
  · rw [optionEdits, if_pos hrun, List.append_nil] at hothers hcollection ⊢
    exact ⟨hkept, hconfigurations, hversion, hcollection, hentities,
      fun entries hentries => by rw [if_pos hrun]; exact hruns entries hentries, hothers⟩
  · have hsplit : ∀ record : Object, builderEdits record (optionEdits clock options) =
        builderEdit (clock 4) (.addRun (named options.run.text))
          (builderEdits record
            [(clock 0, .addConfiguration (named options.configuration.text)),
              (clock 1, .setVersion (named options.version.text)),
              (clock 2,
                .setCollection (.object [("collection", .string options.collection.text)])),
              (clock 3, .addEntity (named options.entity.text))]) := by
      intro record
      rw [optionEdits, if_neg hrun, builderEdits, GuardedRun.run_append]
      rfl
    have haddRun := addRun_edit (clock 4) hkept.accepted (hkept.writable hwritable)
      options.run.text
    rw [hsplit] at hothers hcollection ⊢
    refine ⟨hkept.trans haddRun.kept, fun entries hentries => ?_, ?_, hcollection,
      fun entries hentries => ?_, fun entries hentries => ?_, hothers⟩
    · rw [lookup_builderEdit_of_untouched (by simp [touchedKeys])]
      exact hconfigurations entries hentries
    · rw [lookup_builderEdit_of_untouched (by simp [touchedKeys])]
      exact hversion
    · rw [lookup_builderEdit_of_untouched (by simp [touchedKeys])]
      exact hentities entries hentries
    · rw [if_neg hrun]
      exact haddRun.entries_eq entries (hruns entries hentries)

end Options

/-! ## The edit -/

/-- The entities after the edit of an operation. -/
def ManagedEdit.entities (env : Environment) : ManagedEdit → List Value → List Value
  | .addEntity name => addNamed (stamped env name)
  | .removeEntity name => removeNamed (stamped env name)
  | _ => id

/-- The active aliases after the edit. -/
def ManagedEdit.active (env : Environment) : ManagedEdit → List Value → List Value
  | .addAlias name => addNamed (stampedAlias env name)
  | .removeAlias name => removeNamed (stampedAlias env name)
  | _ => id

/-- The history of the aliases after the edit. -/
def ManagedEdit.history (env : Environment) : ManagedEdit → List Value → List Value → List Value
  | .removeAlias name => movedHistory env (stampedAlias env name)
  | _ => fun _ history => history

section Edit

variable {record : Object} {edit : ManagedEdit} (env : Environment)

theorem entities_managedEdit
    (haccepted : Accepted record) (hwritable : Writable record) (hlist : edit.onList)
    {entries : List Value} (hentries : lookup "entities" record = some (.array entries)) :
    lookup "entities" (builderEdit env edit.operation record) =
      some (.array (edit.entities env entries)) := by
  cases edit with
  | addEntity name =>
      exact (addEntity_edit env haccepted hwritable name).entries_eq entries hentries
  | removeEntity name =>
      exact (removeEntity_edit env haccepted hwritable name).entries_eq entries hentries
  | addAlias name =>
      rw [lookup_builderEdit_of_untouched (by simp [ManagedEdit.operation, touchedKeys])]
      exact hentries
  | removeAlias name =>
      rw [lookup_builderEdit_of_untouched (by simp [ManagedEdit.operation, touchedKeys])]
      exact hentries
  | markReadonly => exact absurd hlist (by decide)
  | markDeleted => exact absurd hlist (by decide)

theorem aliases_managedEdit
    (haccepted : Accepted record) (hwritable : Writable record) (hlist : edit.onList)
    {o : Object} {active history : List Value}
    (haliases : lookup "aliases" record = some (.object o))
    (hactive : lookup "active" o = some (.array active))
    (hhistory : lookup "history" o = some (.array history)) :
    lookup "aliases" (builderEdit env edit.operation record) = some (.object
      (set "history" (.array (edit.history env active history))
        (set "active" (.array (edit.active env active)) o))) := by
  have hsame : o = set "history" (.array history) (set "active" (.array active) o) := by
    rw [set_of_lookup hactive, set_of_lookup hhistory]
  cases edit with
  | addAlias name =>
      exact (builderAddAlias_edit env haccepted hwritable name).aliases_eq o active history
        haliases hactive hhistory
  | removeAlias name =>
      exact (builderRemoveAlias_edit env haccepted hwritable name).aliases_eq o active history
        haliases hactive hhistory
  | addEntity name =>
      rw [lookup_builderEdit_of_untouched (by simp [ManagedEdit.operation, touchedKeys]),
        haliases]
      exact congrArg (fun x => some (Value.object x)) hsame
  | removeEntity name =>
      rw [lookup_builderEdit_of_untouched (by simp [ManagedEdit.operation, touchedKeys]),
        haliases]
      exact congrArg (fun x => some (Value.object x)) hsame
  | markReadonly => exact absurd hlist (by decide)
  | markDeleted => exact absurd hlist (by decide)

end Edit

/-! ## The frame -/

/-- What an operation changes of the document it addresses: the list it edits, the
members that the options of its write set, and the update log. -/
structure Framed (clock : Clock) (r : Rewriting) (document document' : Object) : Prop where
  entities : ∀ entries, lookup "entities" document = some (.array entries) →
    lookup "entities" document' =
      some (.array (addNamed (stamped (clock 9) r.writeOptions.entity.text)
        (r.edit.entities (clock 1) entries)))
  aliases : ∀ o active history, lookup "aliases" document = some (.object o) →
    lookup "active" o = some (.array active) → lookup "history" o = some (.array history) →
    lookup "aliases" document' = some (.object
      (set "history" (.array (r.edit.history (clock 1) active history))
        (set "active" (.array (r.edit.active (clock 1) active)) o)))
  configurations : ∀ entries, lookup "configurations" document = some (.array entries) →
    lookup "configurations" document' =
      some (.array (addNamed (stamped (clock 6) r.writeOptions.configuration.text) entries))
  version : lookup "version" document' = some (.string r.writeOptions.version.text)
  runs : ∀ entries, lookup "runs" document = some (.array entries) →
    lookup "runs" document' =
      some (.array (if r.writeOptions.run = notprovided then entries
        else addNamed (stamped (clock 10) r.writeOptions.run.text) entries))
  collection : lookup "collection" document' = lookup "collection" document
  log : LogExtends document document'
  others : ∀ k, k ∉ "aliases" :: optionKeys → lookup k document' = lookup k document

section Frame

variable {c : Conversions} {clock : Clock} {r : Rewriting} {store store' : Store}
  {document : Object} {oid : String} {text : Text}

theorem framed_filed
    (hplaced : Placed r.writeOptions.collection.text oid document)
    (hwritable : Writable document) (hlist : r.edit.onList) :
    Framed clock r document (r.filed clock document) := by
  have hkept := kept_managedEdit hplaced.accepted hwritable hlist (clock 1)
  have hwritable' := hkept.writable hwritable
  have heffects := optionEdits_effects ((clock.drop 2).drop 4) r.writeOptions hkept.accepted
    hwritable'
  have hfiled : r.filed clock document =
      builderEdits (builderEdit (clock 1) r.edit.operation document)
        (optionEdits ((clock.drop 2).drop 4) r.writeOptions) := by
    rw [Rewriting.filed, settled, if_pos hwritable']
  rw [← hfiled] at heffects
  constructor
  · intro entries hentries
    exact heffects.entities _
      (entities_managedEdit (clock 1) hplaced.accepted hwritable hlist hentries)
  · intro o active history haliases hactive hhistory
    rw [heffects.others "aliases" (by decide)]
    exact aliases_managedEdit (clock 1) hplaced.accepted hwritable hlist haliases hactive
      hhistory
  · intro entries hentries
    apply heffects.configurations
    rw [lookup_managedEdit (by decide), hentries]
  · exact heffects.version
  · intro entries hentries
    apply heffects.runs
    rw [lookup_managedEdit (by decide), hentries]
  · rw [heffects.collection, hplaced.collection]
  · exact hkept.log.trans heffects.kept.log
  · intro k hk
    rw [List.mem_cons, not_or] at hk
    rw [heffects.others k hk.2]
    apply lookup_managedEdit
    have hk' := hk.2
    simp only [optionKeys, List.mem_cons, List.not_mem_nil, or_false, not_or] at hk'
    simp [hk.1, hk']

/-- A call that succeeds has read a document which its overlay accepts. -/
theorem overlay_of_run
    (hread : detail.readDocument c r.readOptions store = .ok (.json (.object document)))
    (hrun : r.run c clock store = .ok text store') :
    ∃ record, ovlDatabaseRecord (clock 0) document = .ok record := by
  cases hrecord : ovlDatabaseRecord (clock 0) document with
  | ok record => exact ⟨record, rfl⟩
  | error e =>
      have herror : r.run c clock store = .error e store := by
        have hdocument : (lift (Text.document (.json (.object document))) :
            InPlace Failure Store Object) store = .ok document store := rfl
        exact (bind_run (fetch_ok hread)).trans
          ((bind_run hdocument).trans (bind_error (lift_run_error hrecord store)))
      rw [herror] at hrun
      simp at hrun

/-- A list edit that succeeds on a document which is neither readonly nor deleted
changes its own list and what the options of the write name, and no other
document. -/
theorem management_framed
    (hreachable : Reachable store) {call : ManagementCall} (hcall : call.rewriting = .ok r)
    (hlist : r.edit.onList) (hselect : selectDocument r.readOptions store = .ok document)
    (hstored : documentAt store r.writeOptions.collection.text oid = some document)
    (hwritable : Writable document) (hformat : r.readOptions.format = .db)
    (hpayload : lookup "payload" document = none)
    (hok : call.perform c clock store = .ok text store') :
    (∃ document', documentAt store' r.writeOptions.collection.text oid = some document' ∧
        Framed clock r document document') ∧
      ∀ name' oid', (name', oid') ≠ (r.writeOptions.collection.text, oid) →
        documentAt store' name' oid' = documentAt store name' oid' := by
  have hfiled := filedStore_of_reachable hreachable _ _ _ hstored
  have hread := readDocument_db (c := c) r.load hformat hselect
  rw [perform_run c clock hcall] at hok
  obtain ⟨record, hrecord⟩ := overlay_of_run hread hok
  have haccepted : Accepted document := (hfiled.normal.overlay hrecord).2
  have hplaced : Placed r.writeOptions.collection.text oid document :=
    ⟨haccepted, (hfiled.own hwritable).1, (hfiled.own hwritable).2, hfiled.oid_valid⟩
  have hflags := (kept_managedEdit haccepted hwritable hlist (clock 1)).writable hwritable
  have hafter := documentAt_run hread haccepted hpayload hflags
    (placed_of_writable hplaced hwritable hlist)
  rw [after_of_ok hok] at hafter
  refine ⟨⟨r.filed clock document, ?_, framed_filed hplaced hwritable hlist⟩,
    fun name' oid' hother => ?_⟩
  · rw [hafter, if_pos ⟨rfl, rfl⟩]
  · rw [hafter, if_neg]
    rintro ⟨rfl, rfl⟩
    exact hother rfl

end Frame

/-! ## An entity for the example document -/

/-- The text that a call returns, if it succeeds. -/
def returned (call : ManagementCall) (store : Store) : Option Text :=
  match call.perform noConversions exampleClock store with
  | .ok text _ => some text
  | .error _ _ => none

theorem perform_of_returned
    {call : ManagementCall} {store : Store} {text : Text}
    (hreturned : returned call store = some text) :
    call.perform noConversions exampleClock store = .ok text (performed call store) := by
  unfold returned at hreturned
  split at hreturned
  · rename_i text' store' hrun
    rw [Option.some.injEq] at hreturned
    rw [performed, after_of_ok hrun, hrun, hreturned]
  · simp at hreturned

theorem management_framed_addEntity :
    ∃ document', documentAt
        (performed (.addEntity (exampleOptions "addentity")) exampleStore) "run"
        "cccccccccccccccccccccccc" = some document' ∧
      Framed exampleClock exampleRewriting exampleDocument document' := by
  have hreturned : ∃ text, returned (.addEntity (exampleOptions "addentity")) exampleStore =
      some text := by
    rw [← Option.isSome_iff_exists]
    decide +kernel
  obtain ⟨text, hreturned⟩ := hreturned
  have hselect : selectDocument exampleRewriting.readOptions exampleStore =
      .ok exampleDocument := by
    decide +kernel
  have hstored : documentAt exampleStore exampleRewriting.writeOptions.collection.text
      "cccccccccccccccccccccccc" = some exampleDocument := by
    decide +kernel
  exact (management_framed ⟨_, rfl⟩ rewriting_addEntity (by decide) hselect hstored
    (by decide +kernel) rfl (by decide +kernel) (perform_of_returned hreturned)).1

/-- The entity is not the only thing that a document gains. -/
theorem addEntity_adds_configuration :
    Writable exampleDocument ∧
      (returned (.addEntity (exampleOptions "addentity")) exampleStore).isSome ∧
      lookup "configurations" exampleDocument = some (.array []) ∧
      ∃ document', documentAt
          (performed (.addEntity (exampleOptions "addentity")) exampleStore) "run"
          "cccccccccccccccccccccccc" = some document' ∧
        lookup "configurations" document' =
          some (.array [stamped exampleEnvironment "notprovided"]) := by
  refine ⟨by decide +kernel, by decide +kernel, by decide +kernel, ?_⟩
  have hsome : (documentAt (performed (.addEntity (exampleOptions "addentity")) exampleStore)
      "run" "cccccccccccccccccccccccc" >>= lookup "configurations") =
        some (.array [stamped exampleEnvironment "notprovided"]) := by
    decide +kernel
  exact Option.bind_eq_some_iff.1 hsome

end ArtdaqDatabase
