import ArtdaqDatabase.DocumentRewriting

/-!
# What a management operation leaves

The write of an operation is prepared from the stored document alone.  A document
that is neither readonly nor deleted goes back to its own place.  A frozen one
goes back unchanged when it is marked; the other operations store it once more,
under a new id.
-/

namespace ArtdaqDatabase

open OrderedTable InPlaceUpdate

/-! ## The prepared write -/

/-- The payload of the write that a rewriting prepares. -/
def Rewriting.payload (c : Conversions) (clock : Clock) (r : Rewriting) (store : Store) :
    Except Failure Value := do
  let text ← detail.readDocument c r.readOptions store
  let data ← text.document
  let record ← ovlDatabaseRecord (clock 0) data
  let written ← writePayload c (clock.drop 2) r.writeOptions
    (.json (.object (builderEdit (clock 1) r.edit.operation record)))
  .ok written.1

theorem after_writeDocument_detail
    (c : Conversions) (clock : Clock) (options : ManageDocumentOperation) (conf : Text)
    (store : Store) :
    after (detail.writeDocument c clock options conf) store =
      match writePayload c clock options conf with
      | .ok written => writeStep store (clock 9, written.1)
      | .error _ => store := by
  cases hwritten : writePayload c clock options conf with
  | error e => exact after_of_error (bind_error (lift_run_error hwritten store))
  | ok written =>
      rw [detail.writeDocument, after_bind (lift_run hwritten store)]
      cases hrun : writeDocument (clock 9) written.1 store with
      | error e store' => exact (after_bind_error hrun).trans (after_of_error hrun).symm
      | ok id store' => exact (after_bind hrun).trans (after_of_ok hrun).symm

/-- An operation is at most one write of the provider. -/
theorem after_run (c : Conversions) (clock : Clock) (r : Rewriting) (store : Store) :
    after (r.run c clock) store =
      match r.payload c clock store with
      | .ok payload => writeStep store (clock 11, payload)
      | .error _ => store := by
  unfold Rewriting.run detail.rewriteDocument Rewriting.payload
  cases hread : detail.readDocument c r.readOptions store with
  | error e => exact after_bind_error (fetch_error hread)
  | ok text =>
      rw [after_bind (fetch_ok hread)]
      cases hdata : text.document with
      | error e =>
          simp only [bind, Except.bind, hdata]
          rfl
      | ok data =>
          cases hrecord : ovlDatabaseRecord (clock 0) data with
          | error e =>
              rw [after_bind (lift_run rfl store), after_bind_error (lift_run_error hrecord store)]
              simp only [bind, Except.bind, hdata, hrecord]
          | ok record =>
              have hafter := after_writeDocument_detail c (clock.drop 2) r.writeOptions
                (.json (.object (builderEdit (clock 1) r.edit.operation record))) store
              rw [after_bind (lift_run rfl store), after_bind (lift_run hrecord store),
                after_bind_fetch, hafter]
              simp only [bind, Except.bind, hdata, hrecord]
              cases writePayload c (clock.drop 2) r.writeOptions
                (.json (.object (builderEdit (clock 1) r.edit.operation record))) <;> rfl

section Write

variable {c : Conversions} {clock : Clock} {options : ManageDocumentOperation} {record : Object}

theorem draftDocument_db
    (hformat : options.format = .db) (haccepted : Accepted record) :
    draftDocument c clock options (.json (.object record)) =
      (isReadonlyOrDeleted record >>= fun frozen =>
        draftFromRecord
          (if frozen && options.operation = "store" then
              builderEdit (clock 1) .newObjectID record
            else record)
          (.json (.object record))) := by
  have hrecord : ovlDatabaseRecord (clock 0) record = .ok record := haccepted (clock 0)
  rw [draftDocument.eq_def, hformat]
  simp only [Text.document, hrecord, bind, Except.bind]

/-- Flags that cannot be read stop the write. -/
theorem writePayload_unreadable
    (hformat : options.format = .db) (haccepted : Accepted record) {e : Failure}
    (hflags : isReadonlyOrDeleted record = .error e) :
    ∃ e', writePayload c clock options (.json (.object record)) = .error e' := by
  unfold writePayload
  cases confirm (options.operation = "store" || options.operation = "overwritedocument") with
  | error e' => exact ⟨e', rfl⟩
  | ok u =>
      rw [draftDocument_db hformat haccepted, hflags, if_neg (by simp)]
      exact ⟨e, rfl⟩

theorem settled_of_frozen
    (hfrozen : Frozen record) :
    settled clock options record =
      if options.operation = "store" then builderEdit (clock 1) .newObjectID record
      else record := by
  rw [settled, if_neg hfrozen.not_writable]

theorem accepted_settled (haccepted : Accepted record) :
    Accepted (settled clock options record) := by
  unfold settled
  split
  · rename_i hwritable
    exact (kept_optionEdits _ options haccepted hwritable).accepted
  · split
    · obtain ⟨-, -, -, hkept⟩ := newId_edit (clock 1) haccepted
      exact hkept.accepted
    · exact haccepted

/-- The options and the new id leave the other members alone. -/
theorem lookup_settled {k : String} (hk : k ∉ "_id" :: optionKeys) :
    lookup k (settled clock options record) = lookup k record := by
  rw [List.mem_cons, not_or] at hk
  unfold settled
  split
  · exact lookup_builderEdits_of_untouched
      (fun p hp => touchedKeys_optionEdits hp hk.2) record
  · split
    · exact lookup_builderEdit_of_untouched (by simp [touchedKeys, hk.1]) record
    · rfl

theorem writePayload_settled
    (hformat : options.format = .db)
    (hoperation : options.operation = "store" ∨ options.operation = "overwritedocument")
    (haccepted : Accepted record) (habsent : lookup "payload" record = none)
    {flag : Bool} (hflags : isReadonlyOrDeleted record = .ok flag) {id : Value}
    (hid : lookup "_id" (settled clock options record) = some id) :
    writePayload c clock options (.json (.object record)) =
      .ok (filedPayload options (settled clock options record) id,
        .json (.object record)) := by
  have hconfirm : confirm
      (options.operation = "store" || options.operation = "overwritedocument") = .ok () := by
    rcases hoperation with h | h <;> simp [h]
  have hsettled : Accepted (settled clock options record) := accepted_settled haccepted
  have hvalue := hsettled.payload_value (by rw [lookup_settled (by decide), habsent]) "document"
  rw [writePayload, hconfirm]
  simp only [bind, Except.bind, draftDocument_db hformat haccepted, hflags]
  rw [if_neg (by simp)]
  cases flag with
  | false =>
      have hwritable : Writable record := hflags
      have hsettled : settled clock options record =
          builderEdits record (optionEdits (clock.drop 4) options) := by
        rw [settled, if_pos hwritable]
      have hown : valueAt "_id" record = .ok id := by
        rw [valueAt_eq_ok, ← hid, hsettled]
        exact (lookup_builderEdits_of_untouched
          (fun p hp => touchedKeys_optionEdits hp (by decide)) record).symm
      rw [hsettled] at hvalue ⊢
      simp [draftFromRecord, getObjectID, hown, applyOptions, hflags, insertPayload, hvalue,
        filedPayload, bind, Except.bind]
  | true =>
      have hfrozen : Frozen record := hflags
      have hsettled : settled clock options record =
          if options.operation = "store" then builderEdit (clock 1) .newObjectID record
          else record :=
        settled_of_frozen hfrozen
      have hstill : isReadonlyOrDeleted (settled clock options record) = .ok true := by
        rw [hsettled]
        split
        · exact frozen_builderEdit hfrozen _ (by simp)
        · exact hflags
      have hown : valueAt "_id" (settled clock options record) = .ok id := valueAt_eq_ok.2 hid
      rw [hsettled] at hvalue hstill hown ⊢
      simp [draftFromRecord, getObjectID, hown, applyOptions, hstill, insertPayload, hvalue,
        filedPayload, bind, Except.bind]

end Write

/-! ## Edited records -/

section Edited

variable {record : Object}

theorem after_setFlag
    {b : Object} (hof : bookkeepingOf record = .ok b) (flag : String) :
    after (setFlag flag) record =
      match boolAt flag b with
      | .ok _ => set "bookkeeping" (.object (set flag (.boolean true) b)) record
      | .error _ => record := by
  rw [setFlag, after_bind (fetch_ok hof)]
  cases hflag : boolAt flag b with
  | error e => exact after_bind_error (lift_run_error rfl record)
  | ok v => rw [after_bind (lift_run rfl record), after_of_ok (write_run _ _)]

theorem accepted_setFlag
    (haccepted : Accepted record) {flag : String} (hflag : flag = "isreadonly" ∨ flag = "isdeleted") :
    Accepted (after (setFlag flag) record) := by
  obtain ⟨b, hb, hholds⟩ := haccepted.bookkeeping
  have hof : bookkeepingOf record = .ok b := objectAt_eq_ok.2 hb
  rw [after_setFlag hof]
  split
  · apply haccepted.set_bookkeeping
    have hs : (⟨flag, valueDefault (.boolean false), false, ovlKeyValue⟩ : Section) ∈
        bookkeepingSections := by
      rcases hflag with rfl | rfl <;> simp [bookkeepingSections]
    exact holds_set (by decide) hholds hs (ovlKeyValue_accepts _)
  · exact haccepted

/-- What the flags are in a bookkeeping that is there. -/
theorem isReadonlyOrDeleted_of_bookkeeping
    {b : Object} (hb : lookup "bookkeeping" record = some (.object b)) :
    isReadonlyOrDeleted record =
      (boolAt "isreadonly" b >>= fun isReadonly =>
        if isReadonly then .ok true else boolAt "isdeleted" b) := by
  have hof : bookkeepingOf record = .ok b := objectAt_eq_ok.2 hb
  simp only [isReadonlyOrDeleted, hof, bind, Except.bind]

theorem boolAt_set_of_ne {flag key : String} (hflag : flag ≠ key) (v : Value) (b : Object) :
    boolAt flag (set key v b) = boolAt flag b := by
  simp only [boolAt, valueAt, lookup_set_of_ne hflag]

theorem boolAt_set_self (flag : String) (v : Bool) (b : Object) :
    boolAt flag (set flag (.boolean v) b) = .ok v := by
  simp

/-- Marking a document as deleted makes readable flags say so. -/
theorem isReadonlyOrDeleted_markDeleted
    (haccepted : Accepted record) (env : Environment) :
    isReadonlyOrDeleted (builderEdit env .markDeleted record) =
      (isReadonlyOrDeleted record >>= fun _ => .ok true) ∨
      ∃ e, isReadonlyOrDeleted record = .error e ∧
        ∃ e', isReadonlyOrDeleted (builderEdit env .markDeleted record) = .error e' := by
  obtain ⟨b, hb, -⟩ := haccepted.bookkeeping
  have hof : bookkeepingOf record = .ok b := objectAt_eq_ok.2 hb
  have hedit : builderEdit env .markDeleted record = after (setFlag "isdeleted") record := rfl
  rw [hedit, after_setFlag hof]
  cases hdeleted : boolAt "isdeleted" b with
  | error e =>
      rw [isReadonlyOrDeleted_of_bookkeeping hb, hdeleted]
      cases hreadonly : boolAt "isreadonly" b with
      | error e' => exact Or.inr ⟨e', rfl, e', rfl⟩
      | ok flag =>
          cases flag with
          | true => exact Or.inl rfl
          | false => exact Or.inr ⟨e, rfl, e, rfl⟩
  | ok v =>
      have hnew : lookup "bookkeeping"
          (set "bookkeeping" (.object (set "isdeleted" (.boolean true) b)) record) =
          some (.object (set "isdeleted" (.boolean true) b)) := lookup_set_self _ _ _
      dsimp only
      rw [isReadonlyOrDeleted_of_bookkeeping hb, isReadonlyOrDeleted_of_bookkeeping hnew,
        boolAt_set_of_ne (by decide), boolAt_set_self, hdeleted]
      cases hreadonly : boolAt "isreadonly" b with
      | error e' => exact Or.inr ⟨e', rfl, e', rfl⟩
      | ok flag => cases flag <;> exact Or.inl rfl

theorem frozen_markReadonly
    (haccepted : Accepted record) (hwritable : Writable record) (env : Environment) :
    Frozen (builderEdit env .markReadonly record) := by
  obtain ⟨b, hb, -⟩ := haccepted.bookkeeping
  have hof : bookkeepingOf record = .ok b := objectAt_eq_ok.2 hb
  have hedit : builderEdit env .markReadonly record = after (setFlag "isreadonly") record := by
    rw [builderEdit, BuilderOperation.perform, recordMarkReadonly, after,
      whenWritable_run hwritable, ← after]
  have hnew : lookup "bookkeeping"
      (set "bookkeeping" (.object (set "isreadonly" (.boolean true) b)) record) =
      some (.object (set "isreadonly" (.boolean true) b)) := lookup_set_self _ _ _
  rw [hedit, after_setFlag hof, hwritable.isreadonly hof, Frozen]
  dsimp only
  rw [isReadonlyOrDeleted_of_bookkeeping hnew, boolAt_set_self]
  rfl

/-- The edits that ask for the flags before they touch the record. -/
theorem uncheckedKeys_managedEdit {edit : ManagedEdit} (hedit : edit ≠ .markDeleted) :
    uncheckedKeys edit.operation = [] := by
  cases edit with
  | markDeleted => exact absurd rfl hedit
  | _ => rfl

/-- An edit of a list of entries or of the aliases. -/
def ManagedEdit.onList (edit : ManagedEdit) : Prop :=
  edit.writeOperation = "store"

instance (edit : ManagedEdit) : Decidable edit.onList :=
  inferInstanceAs (Decidable (_ = _))

theorem kept_managedEdit
    (haccepted : Accepted record) (hwritable : Writable record) {edit : ManagedEdit}
    (hlist : edit.onList) (env : Environment) :
    Kept record (builderEdit env edit.operation record) := by
  cases edit with
  | addEntity name => exact (addEntity_edit env haccepted hwritable name).kept
  | removeEntity name => exact (removeEntity_edit env haccepted hwritable name).kept
  | addAlias name => exact (builderAddAlias_edit env haccepted hwritable name).kept
  | removeAlias name => exact (builderRemoveAlias_edit env haccepted hwritable name).kept
  | markReadonly => exact absurd hlist (by decide)
  | markDeleted => exact absurd hlist (by decide)

theorem accepted_managedEdit
    (haccepted : Accepted record) (edit : ManagedEdit) (env : Environment) :
    Accepted (builderEdit env edit.operation record) := by
  by_cases hdeleted : edit = .markDeleted
  · subst hdeleted
    exact accepted_setFlag haccepted (Or.inr rfl)
  · by_cases hwritable : Writable record
    · by_cases hlist : edit.onList
      · exact (kept_managedEdit haccepted hwritable hlist env).accepted
      · have hreadonly : edit = .markReadonly := by
          cases edit <;> simp [ManagedEdit.onList, ManagedEdit.writeOperation] at hlist hdeleted ⊢
        subst hreadonly
        have hedit : builderEdit env ManagedEdit.markReadonly.operation record =
            after (setFlag "isreadonly") record := by
          change after recordMarkReadonly record = _
          rw [recordMarkReadonly, after, whenWritable_run hwritable, ← after]
        rw [hedit]
        exact accepted_setFlag haccepted (Or.inl rfl)
    · rw [builderEdit_of_not_writable hwritable (uncheckedKeys_managedEdit hdeleted)]
      exact haccepted

theorem frozen_managedEdit
    (haccepted : Accepted record) (hfrozen : Frozen record) (edit : ManagedEdit)
    (env : Environment) :
    Frozen (builderEdit env edit.operation record) := by
  by_cases hdeleted : edit = .markDeleted
  · subst hdeleted
    rcases isReadonlyOrDeleted_markDeleted haccepted env with h | ⟨e, he, -⟩
    · rw [hfrozen] at h
      exact h
    · rw [Frozen, he] at hfrozen
      simp at hfrozen
  · rw [builderEdit_of_frozen hfrozen (uncheckedKeys_managedEdit hdeleted)]
    exact hfrozen

theorem frozen_mark
    (haccepted : Accepted record) (hwritable : Writable record) {edit : ManagedEdit}
    (hmark : ¬ edit.onList) (env : Environment) :
    Frozen (builderEdit env edit.operation record) := by
  cases edit with
  | markReadonly => exact frozen_markReadonly haccepted hwritable env
  | markDeleted =>
      rcases isReadonlyOrDeleted_markDeleted haccepted env with h | ⟨e, he, -⟩
      · rw [Writable] at hwritable
        rw [hwritable] at h
        exact h
      · rw [Writable, he] at hwritable
        simp at hwritable
  | _ => exact absurd rfl hmark

/-- Flags that cannot be read cannot be read after the edit either. -/
theorem unreadable_managedEdit
    (haccepted : Accepted record) {e : Failure} (hflags : isReadonlyOrDeleted record = .error e)
    (edit : ManagedEdit) (env : Environment) :
    ∃ e', isReadonlyOrDeleted (builderEdit env edit.operation record) = .error e' := by
  by_cases hdeleted : edit = .markDeleted
  · subst hdeleted
    rcases isReadonlyOrDeleted_markDeleted haccepted env with h | ⟨-, -, he⟩
    · rw [hflags] at h
      exact ⟨e, h⟩
    · exact he
  · have hnot : ¬ Writable record := by
      rw [Writable, hflags]
      simp
    rw [builderEdit_of_not_writable hnot (uncheckedKeys_managedEdit hdeleted)]
    exact ⟨e, hflags⟩

theorem lookup_managedEdit
    {k : String} (hk : k ∉ ["entities", "aliases", "bookkeeping"]) (edit : ManagedEdit)
    (env : Environment) (record : Object) :
    lookup k (builderEdit env edit.operation record) = lookup k record := by
  simp only [List.mem_cons, List.not_mem_nil, or_false, not_or] at hk
  apply lookup_builderEdit_of_untouched
  cases edit <;> simp [ManagedEdit.operation, touchedKeys, hk]

end Edited

/-! ## Filing a record under its own id -/

theorem Accepted.collection_ne
    {record : Object} (haccepted : Accepted record) {name : String}
    (hname : lookup "collection" record = some (.string name)) :
    name ≠ "" := by
  obtain ⟨⟨v, hlookup, hv⟩, -⟩ := accepted_iff.1 haccepted (textSection "collection")
    (by simp [recordSections, textSection])
  have hstring : ovlStringKeyValue exampleEnvironment v = .ok v := hv exampleEnvironment
  obtain ⟨text, rfl, htext⟩ := ovlStringKeyValue_eq_ok.1 hstring
  have hkey : lookup "collection" record = some (.string text) := hlookup
  rw [hname, Option.some.injEq, Value.string.injEq] at hkey
  subst hkey
  rintro rfl
  simp at htext

/-- A record with the id and the collection of a place. -/
structure Placed (name oid : String) (record : Object) : Prop where
  accepted : Accepted record
  id : lookup "_id" record = some (.object [("$oid", .string oid)])
  collection : lookup "collection" record = some (.string name)
  oid_valid : oid ≠ "" ∧ oid ≠ ouidInvalid

theorem providedOid_own (oid : String) :
    providedOid [("_id", .object [("$oid", .string oid)])] = some oid := by
  have hlookup : lookup "_id" [("_id", Value.object [("$oid", .string oid)])] =
      some (.object [("$oid", .string oid)]) := rfl
  have hchild : childText "_id" (.object [("_id", .object [("$oid", .string oid)])]) =
      .ok (writeJson [("$oid", .string oid)]) :=
    childText_of_lookup (by decide) hlookup
  simp only [providedOid, hchild, bind, Except.bind, extractOid_writeJson, Except.toOption]

/-- The write of a record under its own id, whatever else the payload holds. -/
theorem writeRequest_own
    {name oid : String} {record : Object} (hplaced : Placed name oid record) {arg : Value}
    (hdocument : findChildDocument "document" arg = .ok (.object record))
    (hfilter : writeFilter arg = [("_id", .object [("$oid", .string oid)])])
    (env : Environment) :
    ∃ request, writeRequest env arg = .ok request ∧
      request.collection = name ∧ request.oid = oid ∧ request.isNew = false ∧
      request.document = record := by
  have hname := hplaced.accepted.collection_ne hplaced.collection
  have hcollection : writeCollectionName arg record
      [("_id", .object [("$oid", .string oid)])] = .ok name := by
    have hchild : childText "collection" (.object record) = .ok name :=
      childText_of_lookup (by decide) hplaced.collection
    have hconfirm : confirm (name ≠ "") = .ok () := by simp [hname]
    simp only [writeCollectionName, hchild, Except.toOption, Option.getD_some, if_neg hname,
      bind, Except.bind, hconfirm]
  have hprovided := providedOid_own oid
  have hoid : writeOid env [("_id", .object [("$oid", .string oid)])] = oid := by
    simp [writeOid, hprovided, hplaced.oid_valid.2]
  have hsame := recordToWrite_own hplaced.accepted hname hplaced.id hplaced.collection env
  refine ⟨⟨name, false, oid, record, record, hplaced.oid_valid.1⟩, ?_, rfl, rfl, rfl, rfl⟩
  simp only [writeRequest, hdocument, hfilter, hcollection, bind, Except.bind, Value.getObject,
    hoid, hplaced.oid_valid.1, dite_false, hplaced.accepted env, hprovided,
    Option.isNone_some, hsame]

theorem writeFilter_of_lookup
    {o filter : Object} (hfilter : lookup "filter" o = some (.object filter)) :
    writeFilter (.object o) = filter := by
  have hchild : findChildDocument "filter" (.object o) = .ok (.object filter) :=
    findChildDocument_eq_ok.2 ⟨o, filter, rfl, hfilter, rfl⟩
  rw [writeFilter, hchild]
  rfl

/-- The record is at its place afterwards, and every other place is as before. -/
theorem documentAt_own
    {name oid : String} {record : Object} (hplaced : Placed name oid record) {arg : Value}
    (hdocument : findChildDocument "document" arg = .ok (.object record))
    (hfilter : writeFilter arg = [("_id", .object [("$oid", .string oid)])])
    (env : Environment) (store : Store) (name' oid' : String) :
    documentAt (writeStep store (env, arg)) name' oid' =
      if name' = name ∧ oid' = oid then some record else documentAt store name' oid' := by
  obtain ⟨request, hrequest, rfl, rfl, hnew, rfl⟩ := writeRequest_own hplaced hdocument hfilter env
  have hcheck : checkInsert request (collectionAt request.collection store) = .ok () := by
    simp [checkInsert, hnew]
  rw [documentAt_writeStep hrequest]
  simp only [hcheck, and_true]

theorem documentAt_placed
    {name oid : String} {record : Object} (hplaced : Placed name oid record)
    (options : ManageDocumentOperation) (env : Environment) (store : Store)
    (name' oid' : String) :
    documentAt (writeStep store
        (env, filedPayload options record (.object [("$oid", .string oid)]))) name' oid' =
      if name' = name ∧ oid' = oid then some record else documentAt store name' oid' :=
  documentAt_own hplaced (findChildDocument_eq_ok.2 ⟨_, record, rfl, rfl, rfl⟩)
    (writeFilter_of_lookup rfl) env store name' oid'

/-! ## The document after an operation -/

/-- The record that a rewriting files for the document it read. -/
def Rewriting.filed (clock : Clock) (r : Rewriting) (document : Object) : Object :=
  settled (clock.drop 2) r.writeOptions (builderEdit (clock 1) r.edit.operation document)

section Operation

variable {c : Conversions} {clock : Clock} {r : Rewriting} {store : Store} {document : Object}
  {name oid : String}

theorem writeOperation_cases (edit : ManagedEdit) :
    edit.writeOperation = "store" ∨ edit.writeOperation = "overwritedocument" := by
  cases edit <;> simp [ManagedEdit.writeOperation]

theorem payload_of_read
    (hread : detail.readDocument c r.readOptions store = .ok (.json (.object document))) :
    r.payload c clock store =
      (ovlDatabaseRecord (clock 0) document >>= fun record =>
        writePayload c (clock.drop 2) r.writeOptions
          (.json (.object (builderEdit (clock 1) r.edit.operation record))) >>= fun written =>
            .ok written.1) := by
  rw [Rewriting.payload, hread]
  rfl

/-- A document that the overlay refuses is not written. -/
theorem after_run_refused
    (hread : detail.readDocument c r.readOptions store = .ok (.json (.object document)))
    {e : Failure} (hrefused : ovlDatabaseRecord (clock 0) document = .error e) :
    after (r.run c clock) store = store := by
  rw [after_run, payload_of_read hread, hrefused]
  rfl

theorem payload_of_accepted
    (hread : detail.readDocument c r.readOptions store = .ok (.json (.object document)))
    (haccepted : Accepted document) :
    r.payload c clock store =
      (writePayload c (clock.drop 2) r.writeOptions
        (.json (.object (builderEdit (clock 1) r.edit.operation document))) >>= fun written =>
          .ok written.1) := by
  have hrecord : ovlDatabaseRecord (clock 0) document = .ok document := haccepted (clock 0)
  rw [payload_of_read hread, hrecord]
  rfl

theorem after_run_unreadable
    (hread : detail.readDocument c r.readOptions store = .ok (.json (.object document)))
    (haccepted : Accepted document) {e : Failure}
    (hflags : isReadonlyOrDeleted document = .error e) :
    after (r.run c clock) store = store := by
  have hedited := accepted_managedEdit haccepted r.edit (clock 1)
  obtain ⟨e', hflags'⟩ := unreadable_managedEdit haccepted hflags r.edit (clock 1)
  have hrefused : ∃ e'', writePayload c (clock.drop 2) r.writeOptions
      (.json (.object (builderEdit (clock 1) r.edit.operation document))) = .error e'' :=
    writePayload_unreadable r.db hedited hflags'
  obtain ⟨e'', hrefused⟩ := hrefused
  rw [after_run, payload_of_accepted hread haccepted, hrefused]
  rfl

theorem payload_of_placed
    (hread : detail.readDocument c r.readOptions store = .ok (.json (.object document)))
    (haccepted : Accepted document) (habsent : lookup "payload" document = none)
    {flag : Bool}
    (hflags : isReadonlyOrDeleted (builderEdit (clock 1) r.edit.operation document) = .ok flag)
    (hplaced : Placed name oid (r.filed clock document)) :
    r.payload c clock store =
      .ok (filedPayload r.writeOptions (r.filed clock document)
        (.object [("$oid", .string oid)])) := by
  have hedited := accepted_managedEdit haccepted r.edit (clock 1)
  have habsent' : lookup "payload" (builderEdit (clock 1) r.edit.operation document) = none := by
    rw [lookup_managedEdit (by decide), habsent]
  have hoperation : r.writeOptions.operation = "store" ∨
      r.writeOptions.operation = "overwritedocument" := by
    rw [r.writes]
    exact writeOperation_cases r.edit
  have hwritten := writePayload_settled (c := c) r.db hoperation hedited habsent' hflags
    hplaced.id
  rw [payload_of_accepted hread haccepted, hwritten]
  rfl

theorem documentAt_run
    (hread : detail.readDocument c r.readOptions store = .ok (.json (.object document)))
    (haccepted : Accepted document) (habsent : lookup "payload" document = none)
    {flag : Bool}
    (hflags : isReadonlyOrDeleted (builderEdit (clock 1) r.edit.operation document) = .ok flag)
    (hplaced : Placed name oid (r.filed clock document)) (name' oid' : String) :
    documentAt (after (r.run c clock) store) name' oid' =
      if name' = name ∧ oid' = oid then some (r.filed clock document)
      else documentAt store name' oid' := by
  rw [after_run, payload_of_placed hread haccepted habsent hflags hplaced]
  exact documentAt_placed hplaced _ _ store name' oid'

/-! ## Where the record goes -/

theorem filed_of_frozen
    (hfrozen : Frozen (builderEdit (clock 1) r.edit.operation document)) :
    r.filed clock document =
      if r.edit.onList then
        builderEdit (clock 3) .newObjectID (builderEdit (clock 1) r.edit.operation document)
      else builderEdit (clock 1) r.edit.operation document := by
  rw [Rewriting.filed, settled_of_frozen hfrozen, r.writes]
  rfl

theorem filed_of_mark
    (hfrozen : Frozen (builderEdit (clock 1) r.edit.operation document))
    (hmark : ¬ r.edit.onList) :
    r.filed clock document = builderEdit (clock 1) r.edit.operation document := by
  rw [filed_of_frozen hfrozen, if_neg hmark]

/-- A document with its own id and collection. -/
theorem placed_of_mark
    (hplaced : Placed name oid document)
    (hfrozen : Frozen (builderEdit (clock 1) r.edit.operation document))
    (hmark : ¬ r.edit.onList) :
    Placed name oid (r.filed clock document) := by
  rw [filed_of_mark hfrozen hmark]
  constructor
  · exact accepted_managedEdit hplaced.accepted r.edit (clock 1)
  · rw [lookup_managedEdit (by decide), hplaced.id]
  · rw [lookup_managedEdit (by decide), hplaced.collection]
  · exact hplaced.oid_valid

/-- A list edit of a writable document goes to the collection of the options. -/
theorem placed_of_writable
    (hplaced : Placed name oid document) (hwritable : Writable document)
    (hlist : r.edit.onList) :
    Placed r.writeOptions.collection.text oid (r.filed clock document) := by
  have hkept := kept_managedEdit hplaced.accepted hwritable hlist (clock 1)
  have hwritable' := hkept.writable hwritable
  have hfiled : r.filed clock document =
      builderEdits (builderEdit (clock 1) r.edit.operation document)
        (optionEdits ((clock.drop 2).drop 4) r.writeOptions) := by
    rw [Rewriting.filed, settled, if_pos hwritable']
  rw [hfiled]
  constructor
  · exact (kept_optionEdits _ _ hkept.accepted hwritable').accepted
  · rw [lookup_builderEdits_of_untouched
      (fun p hp => touchedKeys_optionEdits hp (by decide)), lookup_managedEdit (by decide),
      hplaced.id]
  · exact collection_optionEdits _ _ hkept.accepted hwritable'
  · exact hplaced.oid_valid

theorem builderEdit_newObjectID
    (haccepted : Accepted document)
    (hid : lookup "_id" document = some (.object [("$oid", .string oid)])) (env : Environment) :
    builderEdit env .newObjectID document =
      set "_id" (.object [("$oid", .string env.newOid)]) document := by
  obtain ⟨id, hlookup, hafter, -⟩ := newId_edit env haccepted
  rw [hid, Option.some.injEq, Value.object.injEq] at hlookup
  subst hlookup
  exact hafter

/-- A list edit of a frozen document goes to a new id. -/
theorem placed_of_frozen
    (hplaced : Placed name oid document) (hfrozen : Frozen document)
    (hlist : r.edit.onList) :
    Placed name (clock 3).newOid (r.filed clock document) := by
  have hsame : builderEdit (clock 1) r.edit.operation document = document := by
    apply builderEdit_of_frozen hfrozen
    apply uncheckedKeys_managedEdit
    rintro hdeleted
    rw [hdeleted] at hlist
    exact absurd hlist (by decide)
  have hfiled : r.filed clock document = builderEdit (clock 3) .newObjectID document := by
    rw [filed_of_frozen (by rw [hsame]; exact hfrozen), if_pos hlist, hsame]
  obtain ⟨-, -, -, hkept⟩ := newId_edit (clock 3) hplaced.accepted
  rw [hfiled]
  constructor
  · exact hkept.accepted
  · rw [builderEdit_newObjectID hplaced.accepted hplaced.id, lookup_set_self]
  · rw [builderEdit_newObjectID hplaced.accepted hplaced.id, lookup_set_of_ne (by decide), hplaced.collection]
  · exact (clock 3).oid_valid _ (by simp)

end Operation

end ArtdaqDatabase
