import ArtdaqDatabase.EditEffects
import ArtdaqDatabase.FileSystemProvider

/-!
# Stored documents

Every document in a file came out of the overlay, so constructing its overlay
again changes nothing or fails; and a document that is neither readonly nor
deleted carries the id of its file and the name of its collection.  Both hold in
every store that writes of the provider can reach, whatever their payloads are.
-/

namespace ArtdaqDatabase

open OrderedTable InPlaceUpdate

/-! ## Normal records -/

/-- What the overlay leaves, and what `writeDocument` makes of it. -/
structure NormalRecord (record : Object) : Prop where
  sections : ∀ s ∈ recordSections, ∃ w, lookup s.key record = some w ∧ s.normalize.Normal w
  bookkeeping : ∃ b updates, lookup "bookkeeping" record = some (.object b) ∧
    (∀ s ∈ bookkeepingSections, ∃ w, lookup s.key b = some w ∧ s.normalize.Normal w) ∧
    lookup "updates" b = some (.array updates) ∧ ∀ entry ∈ updates, ovlUpdate.Normal entry
  collection : ∃ text, lookup "collection" record = some (.string text)

theorem bookkeeping_of_overlay
    {env : Environment} {document record : Object}
    (hrecord : ovlDatabaseRecord env document = .ok record) :
    ∃ b updates, lookup "bookkeeping" record = some (.object b) ∧
      (∀ s ∈ bookkeepingSections, ∃ w, lookup s.key b = some w ∧ s.normalize.Normal w) ∧
      lookup "updates" b = some (.array updates) ∧
        ∀ entry ∈ updates, ovlUpdate.Normal entry := by
  obtain ⟨w, ⟨⟨v, -, hv⟩, hlookup, -⟩⟩ :=
    applySections_result recordSections_nodup hrecord
      (s := ⟨"bookkeeping", valueDefault (.object []), false, ovlBookkeeping⟩)
      (by simp [recordSections])
  obtain ⟨o, b, -, hb, rfl⟩ := overlayObject_eq_ok.1 hv
  obtain ⟨w', ⟨⟨v', -, hv'⟩, hlookup', -⟩⟩ :=
    applySections_result (by decide) hb
      (s := ⟨"updates", valueDefault (.array []), true, ovlFixedList ovlUpdate⟩)
      (by simp [bookkeepingSections])
  simp only [ovlFixedList, bind_eq_ok, Except.ok.injEq] at hv'
  obtain ⟨xs, -, updates, hupdates, rfl⟩ := hv'
  exact ⟨b, updates, hlookup,
    applySections_normalizes (by decide) bookkeepingSections_normalizes hb, hlookup',
    mapM_normalizes ovlUpdate_normalizes hupdates⟩

theorem normalRecord_overlay
    {env : Environment} {document record : Object}
    (hrecord : ovlDatabaseRecord env document = .ok record) :
    NormalRecord record := by
  refine ⟨applySections_normalizes recordSections_nodup recordSections_normalizes hrecord,
    ?_, ?_⟩
  · exact bookkeeping_of_overlay hrecord
  · obtain ⟨w, ⟨⟨v, -, hv⟩, hlookup, -⟩⟩ :=
      applySections_result recordSections_nodup hrecord
        (s := textSection "collection") (by simp [recordSections, textSection])
    have hstring : ovlStringKeyValue env v = .ok w := hv
    obtain ⟨text, -, rfl⟩ := ovlStringKeyValue_eq_ok.1 hstring
    exact ⟨_, hlookup⟩

/-- The overlay refuses a normal record or takes it as it is, then and always. -/
theorem NormalRecord.overlay
    {record record' : Object} (hnormal : NormalRecord record) {env : Environment}
    (hrecord : ovlDatabaseRecord env record = .ok record') :
    record' = record ∧ Accepted record := by
  have hresult := applySections_of_normal hnormal.sections hrecord
  exact ⟨hresult.1, accepted_iff.2 hresult.2⟩

theorem NormalRecord.set_section
    {record : Object} (hnormal : NormalRecord record) {s : Section} (hs : s ∈ recordSections)
    (hkey : s.key ≠ "bookkeeping") {v : Value} (hv : s.normalize.Normal v)
    (htext : s.key = "collection" → ∃ text, v = .string text) :
    NormalRecord (set s.key v record) := by
  refine ⟨normal_set recordSections_nodup hnormal.sections hs hv, ?_, ?_⟩
  · rw [lookup_set_of_ne hkey.symm]
    exact hnormal.bookkeeping
  · by_cases hcollection : s.key = "collection"
    · obtain ⟨text, rfl⟩ := htext hcollection
      exact ⟨text, by rw [hcollection, lookup_set_self]⟩
    · rw [lookup_set_of_ne (Ne.symm hcollection)]
      exact hnormal.collection

section Bookkeeping

variable {record : Object} {env : Environment} {event : String} {what : Value}

theorem NormalRecord.withUpdate
    (hnormal : NormalRecord record) {entry : Value} (hentry : ovlUpdate.Normal entry) :
    NormalRecord (withUpdate entry record) := by
  obtain ⟨b, updates, hb, hsections, hupdates, hentries⟩ := hnormal.bookkeeping
  have hof : bookkeepingOf record = .ok b := objectAt_eq_ok.2 hb
  have hlist : arrayAt "updates" b = .ok updates := arrayAt_eq_ok.2 hupdates
  have hall : ∀ x ∈ updates ++ [entry], ovlUpdate.Normal x := by
    intro x hx
    rcases List.mem_append.1 hx with hx | hx
    · exact hentries x hx
    · rw [List.mem_singleton] at hx
      rw [hx]
      exact hentry
  have hnew := normal_set (by decide) hsections
    (s := ⟨"updates", valueDefault (.array []), true, ovlFixedList ovlUpdate⟩)
    (by simp [bookkeepingSections]) (ovlFixedList_normal hall)
  have hrecord : ArtdaqDatabase.withUpdate entry record =
      set "bookkeeping" (.object (set "updates" (.array (updates ++ [entry])) b)) record := by
    simp only [ArtdaqDatabase.withUpdate, hof, hlist]
  rw [hrecord]
  constructor
  · exact normal_set recordSections_nodup hnormal.sections
      (s := ⟨"bookkeeping", valueDefault (.object []), false, ovlBookkeeping⟩)
      (by simp [recordSections]) (overlayObject_normal hnew)
  · exact ⟨_, updates ++ [entry], lookup_set_self _ _ _, hnew, lookup_set_self _ _ _, hall⟩
  · rw [lookup_set_of_ne (by decide)]
    exact hnormal.collection

/-- The new entry stays in the log also where the overlay refuses the log. -/
theorem after_postUpdate
    (hnormal : NormalRecord record) (hwritable : Writable record)
    (hentry : ovlUpdate.Normal (updateEntry env event what)) :
    after (postUpdate env event what) record =
      withUpdate (updateEntry env event what) record := by
  obtain ⟨b, updates, hb, hsections, hupdates, hentries⟩ := hnormal.bookkeeping
  have hof : bookkeepingOf record = .ok b := objectAt_eq_ok.2 hb
  have hlist : arrayAt "updates" b = .ok updates := arrayAt_eq_ok.2 hupdates
  have hreadonly : boolAt "isreadonly" b = .ok false := hwritable.isreadonly hof
  have hall : ∀ x ∈ updates ++ [updateEntry env event what], ovlUpdate.Normal x := by
    intro x hx
    rcases List.mem_append.1 hx with hx | hx
    · exact hentries x hx
    · rw [List.mem_singleton] at hx
      rw [hx]
      exact hentry
  have hrecord : withUpdate (updateEntry env event what) record =
      set "bookkeeping" (.object (set "updates"
        (.array (updates ++ [updateEntry env event what])) b)) record := by
    simp only [withUpdate, hof, hlist]
  have hfirst : after (postUpdate env event what) record =
      after (do
        let updates' ← lift (ovlFixedList ovlUpdate env
          (.array (updates ++ [updateEntry env event what])))
        write (set "bookkeeping" (.object (set "updates" updates' b))) : RecordM Unit)
        (set "bookkeeping" (.object (set "updates"
          (.array (updates ++ [updateEntry env event what])) b)) record) := by
    rw [postUpdate, after_bind (fetch_ok hof), after_bind (lift_run hreadonly _),
      if_neg (by simp)]
    exact (after_bind (lift_run hlist _)).trans (after_bind (write_run _ _))
  rw [hfirst, hrecord]
  cases hoverlay : ovlFixedList ovlUpdate env
      (.array (updates ++ [updateEntry env event what])) with
  | error e => rw [after_of_error (bind_error (lift_error e _))]
  | ok v =>
      have hsame := (ovlFixedList_normal hall env v hoverlay).1
      rw [after_bind (lift_ok v _), after_of_ok (write_run _ _), hsame, set_set]

end Bookkeeping

/-! ## The record of a write -/

theorem builderEdit_setCollection
    {record : Object} (hnormal : NormalRecord record) (hwritable : Writable record)
    {old name : String} (hold : lookup "collection" record = some (.string old))
    (hname : name ≠ "") (env : Environment) :
    builderEdit env (.setCollection (.object [("collection", .string name)])) record =
      if old = name then record
      else withUpdate (updateEntry env "setCollection" (.string name))
        (set "collection" (.string name) record) := by
  have hoverlaid : (findChild "collection" (.object [("collection", .string name)]) >>=
      findChildValue ["collection"] >>= ovlStringKeyValue env) = .ok (.string name) :=
    ovlStringKeyValue_accepts hname env
  have hset : NormalRecord (set "collection" (.string name) record) :=
    hnormal.set_section (s := textSection "collection") (by simp [recordSections, textSection])
      (by decide) (ovlStringKeyValue_accepts hname).normal fun _ => ⟨name, rfl⟩
  have hwritable' : Writable (set "collection" (.string name) record) := by
    rw [Writable, isReadonlyOrDeleted_congr (lookup_set_of_ne (by decide) _ _)]
    exact hwritable
  have hentry := (updateEntry_accepts env "setCollection" (Or.inl ⟨name, rfl⟩)).normal
  have hnew : (lift (Value.string name).getString : RecordM String) record =
      .ok name record := rfl
  rw [builderEdit, BuilderOperation.perform, after_withOverlay_ok hoverlaid, setText, after,
    whenWritable_run hwritable, ← after, after_bind (fetch_ok (stringAt_eq_ok.2 hold)),
    after_bind hnew]
  split
  · rfl
  · exact (after_bind (write_run _ _)).trans (after_postUpdate hset hwritable' hentry)

theorem normalRecord_setCollection
    {record : Object} (hnormal : NormalRecord record) (hwritable : Writable record)
    {name : String} (hname : name ≠ "") (env : Environment) :
    NormalRecord
        (builderEdit env (.setCollection (.object [("collection", .string name)])) record) ∧
      lookup "collection"
        (builderEdit env (.setCollection (.object [("collection", .string name)])) record) =
        some (.string name) := by
  obtain ⟨old, hold⟩ := hnormal.collection
  have hset : NormalRecord (set "collection" (.string name) record) :=
    hnormal.set_section (s := textSection "collection") (by simp [recordSections, textSection])
      (by decide) (ovlStringKeyValue_accepts hname).normal fun _ => ⟨name, rfl⟩
  have hentry := (updateEntry_accepts env "setCollection" (Or.inl ⟨name, rfl⟩)).normal
  rw [builderEdit_setCollection hnormal hwritable hold hname]
  by_cases hsame : old = name
  · rw [if_pos hsame]
    rw [hsame] at hold
    exact ⟨hnormal, hold⟩
  · rw [if_neg hsame]
    refine ⟨hset.withUpdate hentry, ?_⟩
    rw [lookup_withUpdate (by decide), lookup_set_self]

theorem NormalRecord.id {record : Object} (hnormal : NormalRecord record) :
    ∃ id, lookup "_id" record = some id := by
  obtain ⟨id, hid, -⟩ := hnormal.sections idSection idSection_mem
  exact ⟨id, hid⟩

section RecordToWrite

variable {record : Object} {name : String} (env : Environment) (oid : String)

theorem recordToWrite_eq :
    recordToWrite env oid name record =
      builderEdit env (.setCollection (.object [("collection", .string name)]))
        (builderEdit env (.setObjectID (toId oid)) record) := rfl

/-- A refused id and a refused collection leave the record as it came. -/
theorem recordToWrite_of_not_writable (hnot : ¬ Writable record) :
    recordToWrite env oid name record = record := by
  rw [recordToWrite_eq, builderEdit_of_not_writable hnot rfl,
    builderEdit_of_not_writable hnot rfl]

/-- What the provider makes of a record that is neither readonly nor deleted. -/
theorem recordToWrite_of_writable
    (hnormal : NormalRecord record) (hwritable : Writable record) (hname : name ≠ "") :
    NormalRecord (recordToWrite env oid name record) ∧
      lookup "_id" (recordToWrite env oid name record) =
        some (.object [("$oid", .string oid)]) ∧
      lookup "collection" (recordToWrite env oid name record) = some (.string name) := by
  obtain ⟨old, hold⟩ := hnormal.id
  have hid := builderEdit_setObjectID env hwritable hold oid
  rw [recordToWrite_eq, toId, hid]
  have hset : NormalRecord (set "_id" (.object [("$oid", .string oid)]) record) :=
    hnormal.set_section idSection_mem (by decide) (ovlId_accepts_iff.2 rfl).normal
      fun h => absurd h (by decide)
  have hwritable' : Writable (set "_id" (.object [("$oid", .string oid)]) record) := by
    rw [Writable, isReadonlyOrDeleted_congr (lookup_set_of_ne (by decide) _ _)]
    exact hwritable
  have hcollection := normalRecord_setCollection hset hwritable' hname env
  refine ⟨hcollection.1, ?_, hcollection.2⟩
  rw [lookup_builderEdit_of_untouched (by simp [touchedKeys]), lookup_set_self]

theorem normalRecord_recordToWrite (hnormal : NormalRecord record) (hname : name ≠ "") :
    NormalRecord (recordToWrite env oid name record) := by
  by_cases hwritable : Writable record
  · exact (recordToWrite_of_writable env oid hnormal hwritable hname).1
  · rw [recordToWrite_of_not_writable env oid hwritable]
    exact hnormal

end RecordToWrite

theorem Accepted.normalRecord {record : Object} (haccepted : Accepted record) :
    NormalRecord record := by
  have hholds := accepted_iff.1 haccepted
  refine ⟨fun s hs => ?_, ?_, ?_⟩
  · obtain ⟨⟨w, hlookup, hw⟩, -⟩ := hholds s hs
    exact ⟨w, hlookup, hw.normal⟩
  · obtain ⟨b, hb, hsections⟩ := haccepted.bookkeeping
    obtain ⟨updates, hupdates, hentries⟩ := updates_of_holds hsections
    refine ⟨b, updates, hb, fun s hs => ?_, hupdates, fun x hx => (hentries x hx).normal⟩
    obtain ⟨⟨w, hlookup, hw⟩, -⟩ := hsections s hs
    exact ⟨w, hlookup, hw.normal⟩
  · exact haccepted.text (by simp [recordSections, textSection])

/-- A record that carries the id and the collection of its file is written as it is. -/
theorem recordToWrite_own
    {record : Object} (haccepted : Accepted record) {name oid : String} (hname : name ≠ "")
    (hid : lookup "_id" record = some (.object [("$oid", .string oid)]))
    (hcollection : lookup "collection" record = some (.string name)) (env : Environment) :
    recordToWrite env oid name record = record := by
  by_cases hwritable : Writable record
  · rw [recordToWrite_eq, toId, builderEdit_setObjectID env hwritable hid, set_of_lookup hid,
      builderEdit_setCollection haccepted.normalRecord hwritable hcollection hname, if_pos rfl]
  · exact recordToWrite_of_not_writable env oid hwritable

/-! ## Stores -/

/-- The document in a file of the store. -/
def documentAt (store : Store) (name oid : String) : Option Object :=
  (collectionAt name store).stored oid

theorem documentAt_writeStep
    {env : Environment} {arg : Value} {request : WriteRequest}
    (hrequest : writeRequest env arg = .ok request) (store : Store) (name oid : String) :
    documentAt (writeStep store (env, arg)) name oid =
      if name = request.collection ∧ oid = request.oid ∧
          checkInsert request (collectionAt request.collection store) = .ok () then
        some request.document
      else documentAt store name oid := by
  rw [documentAt, writeStep, after_writeDocument hrequest, collectionAt_set]
  by_cases hname : name = request.collection
  · subst hname
    rw [if_pos rfl, Collection.afterWrite]
    cases hcheck : checkInsert request (collectionAt request.collection store) with
    | ok u =>
        rw [stored_replaced, Function.update_apply]
        simp [documentAt]
    | error e => simp [documentAt]
  · simp [hname, documentAt]

theorem writeStep_of_error
    {env : Environment} {arg : Value} {e : Failure} (hrequest : writeRequest env arg = .error e)
    (store : Store) :
    writeStep store (env, arg) = store := by
  have hrun : writeDocument env arg store = .error e store := by
    rw [writeDocument, hrequest]
    exact bind_error (lift_error e store)
  rw [writeStep, after_of_error hrun]

/-- What every stored document satisfies. -/
structure Filed (name oid : String) (document : Object) : Prop where
  normal : NormalRecord document
  oid_valid : oid ≠ "" ∧ oid ≠ ouidInvalid
  own : Writable document →
    lookup "_id" document = some (.object [("$oid", .string oid)]) ∧
      lookup "collection" document = some (.string name)

theorem writeRequest_collection
    {env : Environment} {arg : Value} {request : WriteRequest}
    (hrequest : writeRequest env arg = .ok request) :
    writeCollectionName arg request.userDocument (writeFilter arg) = .ok request.collection := by
  simp only [writeRequest, bind_eq_ok, getObject_eq_ok] at hrequest
  obtain ⟨userDocument, ⟨v, hv, rfl⟩, collection, hcollection, hrequest⟩ := hrequest
  split at hrequest
  · simp at hrequest
  · simp only [bind_eq_ok, Except.ok.injEq] at hrequest
    obtain ⟨record, hrecord, rfl⟩ := hrequest
    exact hcollection

theorem writeCollectionName_ne
    {arg : Value} {userDocument filter : Object} {name : String}
    (hname : writeCollectionName arg userDocument filter = .ok name) :
    name ≠ "" := by
  have hconfirmed : ∀ {x : Except Failure String},
      (do
        let name' ← x
        confirm (name' ≠ "")
        .ok name' : Except Failure String) = .ok name → name ≠ "" := by
    intro x hx
    simp only [bind_eq_ok, confirm_eq_ok, Except.ok.injEq] at hx
    obtain ⟨name', -, u, hne, rfl⟩ := hx
    simpa using hne
  unfold writeCollectionName at hname
  dsimp only at hname
  generalize (if (childText "collection" (.object userDocument)).toOption.getD "" = "" then
    (childText "collection" (.object filter)).toOption.getD ""
    else (childText "collection" (.object userDocument)).toOption.getD "") = found at hname
  split at hname
  · exact hconfirmed hname
  · exact hconfirmed hname

theorem writeOid_valid (env : Environment) (filter : Object) :
    writeOid env filter ≠ ouidInvalid := by
  unfold writeOid
  dsimp only
  split
  · exact (env.oid_valid env.providerOid (by simp)).2
  · assumption

theorem filed_writeRequest
    {env : Environment} {arg : Value} {request : WriteRequest}
    (hrequest : writeRequest env arg = .ok request) :
    Filed request.collection request.oid request.document := by
  have hname := writeCollectionName_ne (writeRequest_collection hrequest)
  obtain ⟨-, -, hoid, record, hrecord, hdocument⟩ := writeRequest_eq_ok hrequest
  have hnormal := normalRecord_overlay hrecord
  refine ⟨?_, ⟨request.oid_ne, ?_⟩, fun hwritable => ?_⟩
  · rw [hdocument]
    exact normalRecord_recordToWrite env request.oid hnormal hname
  · rw [hoid]
    exact writeOid_valid env _
  · by_cases hrecord' : Writable record
    · rw [hdocument]
      exact (recordToWrite_of_writable env request.oid hnormal hrecord' hname).2
    · rw [hdocument, recordToWrite_of_not_writable env request.oid hrecord'] at hwritable
      exact absurd hwritable hrecord'

def FiledStore (store : Store) : Prop :=
  ∀ name oid document, documentAt store name oid = some document → Filed name oid document

theorem filedStore_writeStep
    {store : Store} (hstore : FiledStore store) (call : Environment × Value) :
    FiledStore (writeStep store call) := by
  intro name oid document hdocument
  cases hrequest : writeRequest call.1 call.2 with
  | error e =>
      rw [writeStep_of_error hrequest] at hdocument
      exact hstore name oid document hdocument
  | ok request =>
      rw [documentAt_writeStep hrequest] at hdocument
      split at hdocument
      · rename_i hwritten
        rw [Option.some.injEq] at hdocument
        rw [← hdocument, hwritten.1, hwritten.2.1]
        exact filed_writeRequest hrequest
      · exact hstore name oid document hdocument

/-- A store that some sequence of writes leaves. -/
def Reachable (store : Store) : Prop :=
  ∃ calls, store = writes [] calls

theorem filedStore_of_reachable {store : Store} (hreachable : Reachable store) :
    FiledStore store := by
  obtain ⟨calls, rfl⟩ := hreachable
  have hempty : FiledStore [] := by
    intro name oid document hdocument
    simp [documentAt, collectionAt] at hdocument
  have hmeets : GuardedRun.Meets writeStep (fun _ _ => True) [] calls :=
    GuardedRun.meets_of_forall (fun _ _ _ => trivial) []
  exact GuardedRun.run_invariant FiledStore
    (fun store call hstore _ => filedStore_writeStep hstore call) hempty hmeets

end ArtdaqDatabase
