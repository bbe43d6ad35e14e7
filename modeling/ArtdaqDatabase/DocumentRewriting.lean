import ArtdaqDatabase.FiledDocuments
import ArtdaqDatabase.ManageDocument

/-!
# Rewriting a stored document

A management operation selects a stored document, edits it and hands it to
`write_document` as a database record.  What the write makes of the record
depends on its flags alone: the options are applied to a record that is neither
readonly nor deleted, and a frozen one is stored as it is, by `store` under a new
id.
-/

namespace ArtdaqDatabase

open OrderedTable InPlaceUpdate

/-! ## The selected document -/

theorem mapM_readFile
    {c : Collection} {oids : List String} {documents : List Object}
    (hread : oids.mapM (readFile c) = .ok documents) :
    ∀ document ∈ documents, ∃ oid, c.stored oid = some document := by
  induction oids generalizing documents with
  | nil =>
      simp only [List.mapM_nil, pure, Except.pure, Except.ok.injEq] at hread
      simp [← hread]
  | cons oid oids ih =>
      simp only [List.mapM_cons, bind_eq_ok, pure, Except.pure, Except.ok.injEq] at hread
      obtain ⟨document, hdocument, rest, hrest, rfl⟩ := hread
      intro d hd
      rcases List.mem_cons.1 hd with rfl | hd
      · refine ⟨oid, ?_⟩
        unfold readFile at hdocument
        split at hdocument
        · rename_i stored hstored
          rw [Except.ok.injEq] at hdocument
          rw [hstored, hdocument]
        · simp at hdocument
      · exact ih hrest d hd

theorem foldlM_laterVersion
    {document d : Object} {rest : List Object}
    (hfold : rest.foldlM laterVersion document = .ok d) :
    d ∈ document :: rest := by
  induction rest generalizing document with
  | nil =>
      simp only [List.foldlM_nil, pure, Except.pure, Except.ok.injEq] at hfold
      simp [hfold]
  | cons x rest ih =>
      simp only [List.foldlM_cons, bind_eq_ok] at hfold
      obtain ⟨largest, hlargest, hrest⟩ := hfold
      simp only [laterVersion, bind_eq_ok, Except.ok.injEq] at hlargest
      obtain ⟨a, -, b, -, hlargest⟩ := hlargest
      have hmem := ih hrest
      rw [List.mem_cons] at hmem ⊢
      rcases hmem with rfl | hmem
      · split at hlargest
        · rw [hlargest]
          exact Or.inr (List.mem_cons_self ..)
        · exact Or.inl hlargest.symm
      · exact Or.inr (List.mem_cons_of_mem _ hmem)

/-- What is selected is stored in the collection that is searched. -/
theorem selectDocument_stored
    {options : ManageDocumentOperation} {store : Store} {d : Object}
    (hselect : selectDocument options store = .ok d) :
    ∃ name oid, readCollectionName (searchPayload options) = .ok name ∧
      documentAt store name oid = some d := by
  simp only [selectDocument, readDocument, bind_eq_ok] at hselect
  obtain ⟨documents, hread, hlatest⟩ := hselect
  simp only [readDocuments, bind_eq_ok] at hread
  obtain ⟨name, hname, oids, -, hfiles⟩ := hread
  have hmem : d ∈ documents := by
    cases documents with
    | nil => simp at hlatest
    | cons document rest => exact foldlM_laterVersion hlatest
  obtain ⟨oid, hoid⟩ := mapM_readFile hfiles d hmem
  exact ⟨name, oid, hname, hoid⟩

theorem criterion_lookup {k key : String} (hk : k ≠ key) (option : OptionText) :
    lookup k (criterion key option) = none := by
  unfold criterion
  split
  · rfl
  · simp [lookup, hk.symm]

theorem lookup_append_none
    {k : String} {o p : Object} (ho : lookup k o = none) (hp : lookup k p = none) :
    lookup k (o ++ p) = none := by
  rw [lookup_eq_none_iff] at ho hp ⊢
  simp only [List.map_append, List.mem_append, not_or]
  exact ⟨ho, hp⟩

/-- Options without a query filter of their own search their own collection. -/
theorem readCollectionName_own
    {options : ManageDocumentOperation} (hfilter : options.queryFilter = none) :
    readCollectionName (searchPayload options) = .ok options.collection.text := by
  have hobject : ∃ filter, options.queryFilterToJsonData = .object filter ∧
      lookup "collection" filter = none := by
    refine ⟨_, by rw [ManageDocumentOperation.queryFilterToJsonData, hfilter]; rfl, ?_⟩
    apply lookup_append_none
    · exact lookup_append_none (criterion_lookup (by decide) _) (criterion_lookup (by decide) _)
    · split
      · rfl
      · exact criterion_lookup (by decide) _
  obtain ⟨filter, hobject, habsent⟩ := hobject
  have hwriteFilter : writeFilter (searchPayload options) = filter := by
    simp [writeFilter, searchPayload, hobject, findChildDocument, findChildValue, lookup,
      Value.getObject, bind, Except.bind, Except.toOption]
  have hlookup : lookup "collection"
      [("filter", options.queryFilterToJsonData),
        ("collection", .string options.collection.text)] =
      some (.string options.collection.text) := by
    simp [lookup]
  have hchild : childText "collection" (searchPayload options) =
      .ok options.collection.text :=
    childText_of_lookup (by decide) hlookup
  have hconfirm : confirm (options.collection.text ≠ "") = .ok () := by
    simp [options.collection.text_ne]
  simp only [readCollectionName, hwriteFilter, childText_of_absent habsent, Except.toOption,
    Option.getD_none, if_true, hchild, bind, Except.bind, hconfirm]

theorem readDocument_db
    {c : Conversions} {options : ManageDocumentOperation} {store : Store} {d : Object}
    (hload : options.operation = "load") (hformat : options.format = .db)
    (hselect : selectDocument options store = .ok d) :
    detail.readDocument c options store = .ok (.json (.object d)) := by
  have hconfirm : confirm (options.operation = "load") = .ok () := by simp [hload]
  have hknown : confirm (options.format ≠ .unknown) = .ok () := by simp [hformat]
  rw [detail.readDocument, hconfirm, hselect, hknown, hformat]
  rfl

/-! ## Management calls -/

/-- The edits of the management operations. -/
inductive ManagedEdit where
  | addEntity (name : String)
  | removeEntity (name : String)
  | addAlias (name : String)
  | removeAlias (name : String)
  | markReadonly
  | markDeleted
  deriving DecidableEq

def ManagedEdit.operation : ManagedEdit → BuilderOperation
  | .addEntity name => .addEntity (named name)
  | .removeEntity name => .removeEntity (named name)
  | .addAlias name => .addAlias (named name)
  | .removeAlias name => .removeAlias (named name)
  | .markReadonly => .markReadonly
  | .markDeleted => .markDeleted

/-- The operation under which the edited record is written. -/
def ManagedEdit.writeOperation : ManagedEdit → String
  | .markReadonly | .markDeleted => "overwritedocument"
  | _ => "store"

/-- The options of the three steps of an operation, and its edit. -/
structure Rewriting where
  readOptions : ManageDocumentOperation
  writeOptions : ManageDocumentOperation
  resultOptions : ManageDocumentOperation
  edit : ManagedEdit
  load : readOptions.operation = "load"
  writes : writeOptions.operation = edit.writeOperation
  db : writeOptions.format = .db
  collection_eq : writeOptions.collection = readOptions.collection
  deriving DecidableEq

def Rewriting.run (c : Conversions) (clock : Clock) (r : Rewriting) :
    InPlace Failure Store Text :=
  detail.rewriteDocument c clock r.readOptions r.writeOptions r.resultOptions r.edit.operation

inductive ManagementCall where
  | addEntity (options : ManageDocumentOperation)
  | removeEntity (options : ManageDocumentOperation)
  | addVersionAlias (options : ManageAliasesOperation)
  | removeVersionAlias (options : ManageAliasesOperation)
  | markDocumentReadonly (options : ManageDocumentOperation)
  | markDocumentDeleted (options : ManageDocumentOperation)
  deriving DecidableEq

def ManagementCall.perform (c : Conversions) (clock : Clock) :
    ManagementCall → InPlace Failure Store Text
  | .addEntity options => detail.addEntity c clock options
  | .removeEntity options => detail.removeEntity c clock options
  | .addVersionAlias options => detail.addVersionAlias c clock options
  | .removeVersionAlias options => detail.removeVersionAlias c clock options
  | .markDocumentReadonly options => detail.markDocumentReadonly c clock options
  | .markDocumentDeleted options => detail.markDocumentDeleted c clock options

/-- The rewriting of an operation whose options name it. -/
def rewritingWithoutEntity (options : ManageDocumentOperation) (operation : String)
    (edit : ManagedEdit) : Except Failure Rewriting := do
  confirm (options.operation = operation)
  .ok
    { readOptions := detail.stepOptions options "load" .db
      writeOptions := detail.stepOptions options edit.writeOperation .db
      resultOptions := detail.stepOptions options "load" options.format
      edit := edit
      load := rfl
      writes := rfl
      db := rfl
      collection_eq := rfl }

/-- The rewriting of a call that passes the checks of its options. -/
def ManagementCall.rewriting : ManagementCall → Except Failure Rewriting
  | .addEntity options =>
      rewritingWithoutEntity options "addentity" (.addEntity options.entity.text)
  | .removeEntity options =>
      rewritingWithoutEntity options "rmentity" (.removeEntity options.entity.text)
  | .markDocumentReadonly options => rewritingWithoutEntity options "markreadonly" .markReadonly
  | .markDocumentDeleted options => rewritingWithoutEntity options "markdeleted" .markDeleted
  | .addVersionAlias options => do
      confirm (options.operation = "addveralias")
      let newOptions ← options.toManageDocument
      .ok
        { readOptions := { newOptions with operation := "load", format := .db }
          writeOptions := { newOptions with operation := "store", format := .db }
          resultOptions := { newOptions with operation := "load", format := options.format }
          edit := .addAlias options.versionAlias.text
          load := rfl
          writes := rfl
          db := rfl
          collection_eq := rfl }
  | .removeVersionAlias options => do
      confirm (options.operation = "rmveralias")
      let newOptions ← options.toManageDocument
      .ok
        { readOptions := { newOptions with operation := "load" }
          writeOptions := { newOptions with operation := "store", format := .db }
          resultOptions :=
            { newOptions with operation := "load", format := options.format, queryFilter := none }
          edit := .removeAlias options.versionAlias.text
          load := rfl
          writes := rfl
          db := rfl
          collection_eq := rfl }

theorem perform_eq (c : Conversions) (clock : Clock) (call : ManagementCall) :
    call.perform c clock = lift call.rewriting >>= fun r => r.run c clock := by
  cases call with
  | addEntity options => rw [ManagementCall.rewriting, rewritingWithoutEntity, lift_bind]; rfl
  | removeEntity options => rw [ManagementCall.rewriting, rewritingWithoutEntity, lift_bind]; rfl
  | markDocumentReadonly options =>
      rw [ManagementCall.rewriting, rewritingWithoutEntity, lift_bind]; rfl
  | markDocumentDeleted options =>
      rw [ManagementCall.rewriting, rewritingWithoutEntity, lift_bind]; rfl
  | addVersionAlias options =>
      rw [ManagementCall.rewriting, lift_bind]
      simp only [lift_bind]
      rfl
  | removeVersionAlias options =>
      rw [ManagementCall.rewriting, lift_bind]
      simp only [lift_bind]
      rfl

theorem perform_run
    (c : Conversions) (clock : Clock) {call : ManagementCall} {r : Rewriting}
    (hr : call.rewriting = .ok r) (store : Store) :
    call.perform c clock store = r.run c clock store := by
  rw [perform_eq, bind_run (lift_run hr store)]

/-! ## The record that is written -/

section Written

variable {record : Object}

/-- A record with several members is handed over whole. -/
theorem Accepted.payload_value
    (haccepted : Accepted record) (habsent : lookup "payload" record = none) (key : String) :
    getPayloadValueForKey key (.object record) = .ok (.object record) := by
  have hcount : count "payload" record ≠ 1 := by
    rw [count_eq_zero_iff.2 habsent]
    decide
  have hsections : textSection "version" ∈ recordSections ∧
      textSection "collection" ∈ recordSections := by
    simp [recordSections, textSection]
  obtain ⟨version, hversion⟩ := haccepted.text hsections.1
  obtain ⟨collection, hcollection⟩ := haccepted.text hsections.2
  have hobject : Value.getObject (.object record) = .ok record := rfl
  simp only [getPayloadValueForKey, hobject, bind, Except.bind, if_neg hcount]
  split
  · rename_i k only
    by_cases hk : "version" = k
    · subst hk
      simp [lookup] at hcollection
    · simp [lookup, Ne.symm hk] at hversion
  · rfl

/-- The record that `write_document` files for an accepted one. -/
def settled (clock : Clock) (options : ManageDocumentOperation) (record : Object) : Object :=
  if Writable record then builderEdits record (optionEdits (clock.drop 4) options)
  else if options.operation = "store" then builderEdit (clock 1) .newObjectID record
  else record

def filedPayload (options : ManageDocumentOperation) (record : Object) (id : Value) : Value :=
  .object
    [("document", .object record), ("filter", .object [("_id", id)]),
      ("collection", .string options.collection.text)]

theorem lookup_builderEdits_of_untouched
    {k : String} {ops : List (Environment × BuilderOperation)}
    (hk : ∀ p ∈ ops, k ∉ touchedKeys p.2) (record : Object) :
    lookup k (builderEdits record ops) = lookup k record := by
  induction ops generalizing record with
  | nil => rfl
  | cons p ops ih =>
      rw [builderEdits, GuardedRun.run_cons, ← builderEdits,
        ih fun q hq => hk q (List.mem_cons_of_mem _ hq)]
      exact lookup_builderEdit_of_untouched (hk p (by simp)) record

/-- The members that the options of a write may change. -/
def optionKeys : List String :=
  ["configurations", "version", "collection", "entities", "runs", "bookkeeping"]

theorem touchedKeys_optionEdits
    {clock : Clock} {options : ManageDocumentOperation} {p : Environment × BuilderOperation}
    (hp : p ∈ optionEdits clock options) {k : String} (hk : k ∉ optionKeys) :
    k ∉ touchedKeys p.2 := by
  simp only [optionKeys, List.mem_cons, List.not_mem_nil, or_false, not_or] at hk
  simp only [optionEdits, List.mem_append, List.mem_cons, List.not_mem_nil, or_false] at hp
  rcases hp with (rfl | rfl | rfl | rfl) | hp
  · simp [touchedKeys, hk]
  · simp [touchedKeys, hk]
  · simp [touchedKeys, hk]
  · simp [touchedKeys, hk]
  · split at hp
    · simp at hp
    · rw [List.mem_singleton] at hp
      subst hp
      simp [touchedKeys, hk]

theorem kept_optionEdit
    {clock : Clock} {options : ManageDocumentOperation} {p : Environment × BuilderOperation}
    (hp : p ∈ optionEdits clock options) (haccepted : Accepted record)
    (hwritable : Writable record) :
    Kept record (builderEdit p.1 p.2 record) := by
  simp only [optionEdits, List.mem_append, List.mem_cons, List.not_mem_nil, or_false] at hp
  rcases hp with (rfl | rfl | rfl | rfl) | hp
  · exact (addConfiguration_edit _ haccepted hwritable _).kept
  · exact (setVersion_edit _ haccepted hwritable _ options.version.text_ne).1
  · exact (setCollection_edit _ haccepted hwritable _ options.collection.text_ne).1
  · exact (addEntity_edit _ haccepted hwritable _).kept
  · split at hp
    · simp at hp
    · rw [List.mem_singleton] at hp
      subst hp
      exact (addRun_edit _ haccepted hwritable _).kept

theorem kept_optionEdits
    (clock : Clock) (options : ManageDocumentOperation) (haccepted : Accepted record)
    (hwritable : Writable record) :
    Kept record (builderEdits record (optionEdits clock options)) := by
  have hmeets : GuardedRun.Meets (fun record p => builderEdit p.1 p.2 record)
      (fun _ p => p ∈ optionEdits clock options) record (optionEdits clock options) :=
    GuardedRun.meets_of_forall (fun p hp _ => hp) record
  exact GuardedRun.run_invariant (fun record' => Kept record record')
    (fun record' p hkept hp =>
      hkept.trans (kept_optionEdit hp hkept.accepted (hkept.writable hwritable)))
    (Kept.refl haccepted) hmeets

theorem collection_optionEdits
    (clock : Clock) (options : ManageDocumentOperation) (haccepted : Accepted record)
    (hwritable : Writable record) :
    lookup "collection" (builderEdits record (optionEdits clock options)) =
      some (.string options.collection.text) := by
  have hfirst := (addConfiguration_edit (clock 0) haccepted hwritable
    options.configuration.text).kept
  have hversion := hfirst.trans (setVersion_edit (clock 1) hfirst.accepted
    (hfirst.writable hwritable) _ options.version.text_ne).1
  have hcollection := (setCollection_edit (clock 2) hversion.accepted
    (hversion.writable hwritable) _ options.collection.text_ne).2
  have hrest : ∀ p ∈ (clock 3, BuilderOperation.addEntity (named options.entity.text)) ::
      (if options.run = notprovided then []
        else [(clock 4, BuilderOperation.addRun (named options.run.text))]),
      "collection" ∉ touchedKeys p.2 := by
    intro p hp
    rw [List.mem_cons] at hp
    rcases hp with rfl | hp
    · simp [touchedKeys]
    · split at hp
      · simp at hp
      · rw [List.mem_singleton] at hp
        subst hp
        simp [touchedKeys]
  exact (lookup_builderEdits_of_untouched hrest _).trans hcollection

end Written

end ArtdaqDatabase
