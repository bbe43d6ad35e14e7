import ArtdaqDatabase.ApiCalls
import ArtdaqDatabase.StoredIds

/-!
# Readonly and deleted documents

Nothing protects a stored document but the flags of the record that a call writes
in its place.  A call that reads the document back from its own place is stopped
by the flags of what it read; a call that brings a record of its own is not.  So a
frozen document is safe in every run whose writes go to other places, but for the
calls that mark a document or edit its configurations.
-/

namespace ArtdaqDatabase

open OrderedTable InPlaceUpdate

/-! ## Steps -/

def apiStep (c : Conversions) (store : Store) (p : Clock × ApiCall) : Store :=
  after (p.2.perform c p.1) store

/-- The place of the write holds no document that is readonly or deleted. -/
def SparesFrozen (store : Store) (write : Environment × Value) : Prop :=
  ∀ request, writeRequest write.1 write.2 = .ok request →
    ∀ document, documentAt store request.collection request.oid = some document →
      ¬ Frozen document

/-- A frozen document that carries the place it is stored at. -/
structure OwnFrozen (store : Store) (name oid : String) (document : Object) : Prop where
  stored : documentAt store name oid = some document
  frozen : Frozen document
  id : lookup "_id" document = some (.object [("$oid", .string oid)])
  collection : lookup "collection" document = some (.string name)

/-- The call selects such a document and keeps to it: it marks the document, read as
a database record and without a member that the payload would be taken for, or it
edits its configurations. -/
def RereadsOwn (store : Store) : ApiCall → Prop
  | .management call =>
      ∃ r name oid document, call.rewriting = .ok r ∧ ¬ r.edit.onList ∧
        r.readOptions.format = .db ∧ selectDocument r.readOptions store = .ok document ∧
        lookup "payload" document = none ∧ OwnFrozen store name oid document
  | .configuration _ options =>
      ∃ name oid document, selectDocument options store = .ok document ∧
        OwnFrozen store name oid document
  | _ => False

/-- What a step has to meet for the frozen documents to stay as they are. -/
def StepSpares (c : Conversions) (store : Store) (p : Clock × ApiCall) : Prop :=
  (∀ write, p.2.prepared c p.1 store = .ok write → SparesFrozen store write) ∨
    RereadsOwn store p.2

/-- The document is the same, or its flag `isdeleted` is set. -/
def OnlyDeleted (document document' : Object) : Prop :=
  document' = document ∨
    ∃ b, lookup "bookkeeping" document = some (.object b) ∧
      document' =
        set "bookkeeping" (.object (set "isdeleted" (.boolean true) b)) document

theorem OnlyDeleted.trans
    {first second third : Object} (h : OnlyDeleted first second)
    (h' : OnlyDeleted second third) :
    OnlyDeleted first third := by
  rcases h with rfl | ⟨b, hb, rfl⟩
  · exact h'
  · rcases h' with rfl | ⟨b', hb', rfl⟩
    · exact Or.inr ⟨b, hb, rfl⟩
    · rw [lookup_set_self, Option.some.injEq, Value.object.injEq] at hb'
      subst hb'
      exact Or.inr ⟨b, hb, by rw [set_set, set_set]⟩

theorem onlyDeleted_markDeleted
    {document : Object} (haccepted : Accepted document) (env : Environment) :
    OnlyDeleted document (builderEdit env .markDeleted document) := by
  obtain ⟨b, hb, -⟩ := haccepted.bookkeeping
  have hof : bookkeepingOf document = .ok b := objectAt_eq_ok.2 hb
  have hedit : builderEdit env .markDeleted document = after (setFlag "isdeleted") document := rfl
  rw [hedit, after_setFlag hof]
  split
  · exact Or.inr ⟨b, hb, rfl⟩
  · exact Or.inl rfl

/-! ## One step -/

section Step

variable {c : Conversions} {store : Store} {clock : Clock} {name oid : String}
  {document : Object}

/-- A write to another place leaves the document alone. -/
theorem documentAt_of_sparesFrozen
    {write : Environment × Value} (hspares : SparesFrozen store write)
    (hstored : documentAt store name oid = some document) (hfrozen : Frozen document) :
    documentAt (writeStep store write) name oid = some document := by
  cases hrequest : writeRequest write.1 write.2 with
  | error e => rw [writeStep_of_error hrequest, hstored]
  | ok request =>
      rw [documentAt_writeStep hrequest, if_neg]
      · exact hstored
      · rintro ⟨rfl, rfl, -⟩
        exact hspares request hrequest document hstored hfrozen

/-- The document that a call to mark a frozen document reads. -/
theorem documentAt_mark
    (c : Conversions) (clock : Clock) (hstore : FiledStore store) {r : Rewriting} (hmark : ¬ r.edit.onList)
    (hformat : r.readOptions.format = .db)
    (hselect : selectDocument r.readOptions store = .ok document)
    (hpayload : lookup "payload" document = none) (hown : OwnFrozen store name oid document)
    (name' oid' : String) :
    ∃ document', (document' = document ∨
          r.edit = .markDeleted ∧ OnlyDeleted document document') ∧ Frozen document' ∧
      documentAt (after (r.run c clock) store) name' oid' =
        if name' = name ∧ oid' = oid then some document' else documentAt store name' oid' := by
  have hfiled := hstore _ _ _ hown.stored
  have hread := readDocument_db (c := c) r.load hformat hselect
  cases hrecord : ovlDatabaseRecord (clock 0) document with
  | error e =>
      refine ⟨document, Or.inl rfl, hown.frozen, ?_⟩
      rw [after_run_refused hread hrecord]
      split
      · rename_i hplace
        rw [hplace.1, hplace.2, hown.stored]
      · rfl
  | ok record =>
      have haccepted : Accepted document := (hfiled.normal.overlay hrecord).2
      have hplaced : Placed name oid document :=
        ⟨haccepted, hown.id, hown.collection, hfiled.oid_valid⟩
      have hfrozen := frozen_managedEdit haccepted hown.frozen r.edit (clock 1)
      have hafter := documentAt_run hread haccepted hpayload hfrozen
        (placed_of_mark hplaced hfrozen hmark) name' oid'
      rw [filed_of_mark hfrozen hmark] at hafter
      refine ⟨builderEdit (clock 1) r.edit.operation document, ?_, hfrozen, hafter⟩
      by_cases hdeleted : r.edit = .markDeleted
      · rw [hdeleted]
        exact Or.inr ⟨rfl, onlyDeleted_markDeleted haccepted (clock 1)⟩
      · exact Or.inl (builderEdit_of_frozen hown.frozen (uncheckedKeys_managedEdit hdeleted) _)

/-- A call to edit the configurations of a frozen document stores it as it is. -/
theorem documentAt_configuration
    (hstore : FiledStore store) {edit : ConfigurationEdit} {options : ManageDocumentOperation}
    (hselect : selectDocument options store = .ok document)
    (hown : OwnFrozen store name oid document) (name' oid' : String) :
    documentAt (after (rewriteConfiguration clock edit options) store) name' oid' =
      documentAt store name' oid' := by
  have hfiled := hstore _ _ _ hown.stored
  have hid : getObjectID document =
      .ok (.object [("_id", .object [("$oid", .string oid)])]) := by
    have hvalue : valueAt "_id" document = .ok (.object [("$oid", .string oid)]) :=
      valueAt_eq_ok.2 hown.id
    rw [getObjectID, hvalue]
    rfl
  rw [rewriteConfiguration, after_fetch_bind, configurationPayload]
  cases confirm (options.operation = edit.name) with
  | error e => rfl
  | ok u =>
      cases hrecord : ovlDatabaseRecord (clock 0) document with
      | error e => simp [bind, Except.bind, hselect, hrecord]
      | ok record =>
          obtain ⟨hrecord', haccepted⟩ := hfiled.normal.overlay hrecord
          rw [hrecord'] at hrecord
          have hplaced : Placed name oid document :=
            ⟨haccepted, hown.id, hown.collection, hfiled.oid_valid⟩
          have hsame : builderEdit (clock 1) (edit.operation options) document = document := by
            apply builderEdit_of_frozen hown.frozen
            cases edit <;> rfl
          have hdocument : findChildDocument "document" (.object
              [("filter", .object [("_id", .object [("$oid", .string oid)])]),
                ("document", .object document)]) = .ok (.object document) :=
            findChildDocument_eq_ok.2 ⟨_, document, rfl, rfl, rfl⟩
          have hafter := documentAt_own hplaced hdocument (writeFilter_of_lookup rfl) (clock 2)
            store name' oid'
          simp only [bind, Except.bind, hselect, hrecord, hsame, hid]
          refine hafter.trans ?_
          split
          · rename_i hplace
            rw [hplace.1, hplace.2, hown.stored]
          · rfl

theorem markDeleted_of_rewriting
    {call : ManagementCall} {r : Rewriting} (hcall : call.rewriting = .ok r)
    (hdeleted : r.edit = .markDeleted) :
    ∃ options, ApiCall.management call = .management (.markDocumentDeleted options) := by
  cases call with
  | markDocumentDeleted options => exact ⟨options, rfl⟩
  | addVersionAlias options =>
      simp only [ManagementCall.rewriting, bind_eq_ok, Except.ok.injEq] at hcall
      obtain ⟨u, hu, newOptions, hnew, rfl⟩ := hcall
      simp at hdeleted
  | removeVersionAlias options =>
      simp only [ManagementCall.rewriting, bind_eq_ok, Except.ok.injEq] at hcall
      obtain ⟨u, hu, newOptions, hnew, rfl⟩ := hcall
      simp at hdeleted
  | addEntity options =>
      simp only [ManagementCall.rewriting, rewritingWithoutEntity, bind_eq_ok,
        Except.ok.injEq] at hcall
      obtain ⟨u, hu, rfl⟩ := hcall
      simp at hdeleted
  | removeEntity options =>
      simp only [ManagementCall.rewriting, rewritingWithoutEntity, bind_eq_ok,
        Except.ok.injEq] at hcall
      obtain ⟨u, hu, rfl⟩ := hcall
      simp at hdeleted
  | markDocumentReadonly options =>
      simp only [ManagementCall.rewriting, rewritingWithoutEntity, bind_eq_ok,
        Except.ok.injEq] at hcall
      obtain ⟨u, hu, rfl⟩ := hcall
      simp at hdeleted

/-- A step keeps every frozen document, but for the flag that `mark_document_deleted`
sets. -/
theorem documentAt_apiStep
    (hstore : FiledStore store) {call : ApiCall} (hspares : StepSpares c store (clock, call))
    (hstored : documentAt store name oid = some document) (hfrozen : Frozen document) :
    ∃ document', documentAt (apiStep c store (clock, call)) name oid = some document' ∧
      Frozen document' ∧
      (document' = document ∨
        (∃ options, call = .management (.markDocumentDeleted options)) ∧
          OnlyDeleted document document') := by
  rcases hspares with hspares | hown
  · refine ⟨document, ?_, hfrozen, Or.inl rfl⟩
    dsimp only at hspares
    rw [apiStep, after_perform]
    cases hprepared : call.prepared c clock store with
    | error e => exact hstored
    | ok write => exact documentAt_of_sparesFrozen (hspares write hprepared) hstored hfrozen
  · cases call with
    | writeDocument options conf => exact hown.elim
    | overwriteVersion collection version entity data => exact hown.elim
    | configuration edit options =>
        obtain ⟨name', oid', document', hselect, hown⟩ := hown
        refine ⟨document, ?_, hfrozen, Or.inl rfl⟩
        rw [apiStep, ApiCall.perform, after_discard,
          documentAt_configuration hstore hselect hown, hstored]
    | management call =>
        obtain ⟨r, name', oid', document', hcall, hmark, hformat, hselect, hpayload, hown⟩ := hown
        obtain ⟨marked, hmarked, hfrozen', hafter⟩ :=
          documentAt_mark c clock hstore hmark hformat hselect hpayload hown name oid
        have hstep : documentAt (apiStep c store (clock, .management call)) name oid =
            if name = name' ∧ oid = oid' then some marked else documentAt store name oid := by
          rw [← hafter, apiStep, ApiCall.perform, after_discard, perform_eq, after_lift_bind,
            hcall]
        by_cases hplace : name = name' ∧ oid = oid'
        · rw [if_pos hplace] at hstep
          have hsame : document' = document := by
            have hstored' := hown.stored
            rw [← hplace.1, ← hplace.2, hstored, Option.some.injEq] at hstored'
            exact hstored'.symm
          rw [hsame] at hmarked
          refine ⟨marked, hstep, hfrozen', ?_⟩
          rcases hmarked with hmarked | ⟨hdeleted, hmarked⟩
          · exact Or.inl hmarked
          · exact Or.inr ⟨markDeleted_of_rewriting hcall hdeleted, hmarked⟩
        · rw [if_neg hplace] at hstep
          exact ⟨document, hstep.trans hstored, hfrozen, Or.inl rfl⟩

end Step

theorem reachable_apiStep
    {store : Store} (hreachable : Reachable store) (c : Conversions) (p : Clock × ApiCall) :
    Reachable (apiStep c store p) := by
  rw [apiStep, after_perform]
  split
  · exact reachable_writeStep hreachable _
  · exact hreachable

/-! ## Runs -/

/-- Assign a configuration to the released document, and mark it once more. -/
def exampleCalls : List (Clock × ApiCall) :=
  [(exampleClock, .configuration .assign (exampleOptions "addconfig")),
    (exampleClock, .management (.markDocumentReadonly (exampleOptions "markreadonly")))]

theorem ownFrozen_of_documentAt
    {store : Store}
    (hstored : documentAt store "run" "cccccccccccccccccccccccc" = some releasedDocument) :
    OwnFrozen store "run" "cccccccccccccccccccccccc" releasedDocument :=
  ⟨hstored, releasedDocument_frozen, by decide +kernel, by decide +kernel⟩

theorem exampleCalls_spare :
    GuardedRun.Meets (apiStep noConversions) (StepSpares noConversions) releasedStore
      exampleCalls := by
  have hfirst : selectDocument (exampleOptions "addconfig") releasedStore =
      .ok releasedDocument := by
    decide +kernel
  have hrewriting : ∃ r, (ManagementCall.markDocumentReadonly
      (exampleOptions "markreadonly")).rewriting = .ok r ∧ ¬ r.edit.onList ∧
        r.readOptions = detail.stepOptions (exampleOptions "markreadonly") "load" .db :=
    ⟨_, rfl, by decide, rfl⟩
  obtain ⟨r, hr, hmark, hoptions⟩ := hrewriting
  refine ⟨Or.inr ⟨_, _, _, hfirst, ownFrozen_of_documentAt documentAt_releasedStore⟩,
    Or.inr ⟨r, _, _, releasedDocument, hr, hmark, ?_, ?_, by decide +kernel,
      ownFrozen_of_documentAt ?_⟩, trivial⟩
  · rw [hoptions]
    rfl
  · rw [hoptions]
    decide +kernel
  · decide +kernel

end ArtdaqDatabase
