import ArtdaqDatabase.ManagementEffects

/-!
# The ids of the stored documents

A management operation writes at most once, so it keeps the set of stored ids
exactly when that write is refused or replaces a document.  A document with its
own id and collection is replaced, unless it is frozen and the operation edits a
list: then a copy is stored under a new id.
-/

namespace ArtdaqDatabase

open OrderedTable InPlaceUpdate

/-- The stored ids, with the collections they are stored in. -/
def storedIds (store : Store) : Set (String × String) :=
  { place | (documentAt store place.1 place.2).isSome }

@[simp]
theorem mem_storedIds {store : Store} {name oid : String} :
    (name, oid) ∈ storedIds store ↔ (documentAt store name oid).isSome := Iff.rfl

def Rewriting.request (c : Conversions) (clock : Clock) (r : Rewriting) (store : Store) :
    Except Failure WriteRequest :=
  r.payload c clock store >>= writeRequest (clock 11)

/-- A write that is prepared and not refused replaces a document. -/
def Rewriting.Replaces (c : Conversions) (clock : Clock) (r : Rewriting) (store : Store) : Prop :=
  ∀ request, r.request c clock store = .ok request →
    checkInsert request (collectionAt request.collection store) = .ok () →
      (documentAt store request.collection request.oid).isSome

/-! ## Reachable stores -/

theorem reachable_writeStep
    {store : Store} (hreachable : Reachable store) (call : Environment × Value) :
    Reachable (writeStep store call) := by
  obtain ⟨calls, rfl⟩ := hreachable
  refine ⟨calls ++ [call], ?_⟩
  rw [writes, writes, GuardedRun.run_append, GuardedRun.run_cons, GuardedRun.run_nil]

theorem reachable_run
    {store : Store} (hreachable : Reachable store) (c : Conversions) (clock : Clock)
    (r : Rewriting) :
    Reachable (after (r.run c clock) store) := by
  rw [after_run]
  split
  · exact reachable_writeStep hreachable _
  · exact hreachable

/-! ## One write -/

theorem storedIds_writeStep
    {env : Environment} {arg : Value} {request : WriteRequest}
    (hrequest : writeRequest env arg = .ok request) (store : Store) :
    storedIds (writeStep store (env, arg)) = storedIds store ↔
      (checkInsert request (collectionAt request.collection store) = .ok () →
        (documentAt store request.collection request.oid).isSome) := by
  constructor
  · intro hsame hcheck
    have hmem : (request.collection, request.oid) ∈ storedIds (writeStep store (env, arg)) := by
      rw [mem_storedIds, documentAt_writeStep hrequest, if_pos ⟨rfl, rfl, hcheck⟩]
      rfl
    rw [hsame] at hmem
    exact hmem
  · intro hreplaces
    ext ⟨name, oid⟩
    rw [mem_storedIds, mem_storedIds, documentAt_writeStep hrequest]
    split
    · rename_i hwritten
      obtain ⟨rfl, rfl, hcheck⟩ := hwritten
      simp [hreplaces hcheck]
    · rfl

theorem storedIds_run_iff
    (c : Conversions) (clock : Clock) (r : Rewriting) (store : Store) :
    storedIds (after (r.run c clock) store) = storedIds store ↔ r.Replaces c clock store := by
  rw [after_run, Rewriting.Replaces, Rewriting.request]
  cases hpayload : r.payload c clock store with
  | error e => simp [bind, Except.bind]
  | ok payload =>
      cases hrequest : writeRequest (clock 11) payload with
      | error e =>
          dsimp only
          rw [writeStep_of_error hrequest]
          simp [bind, Except.bind, hrequest]
      | ok request =>
          dsimp only
          rw [storedIds_writeStep hrequest]
          simp [bind, Except.bind, hrequest]

/-! ## Ordinary calls -/

/-- A call that works on the document of one place: it is read as a database
record from the collection it is written to, has no member that the payload would
be taken for, carries its own id and collection also when it is frozen, and the
next generated id is not in use. -/
structure Rewriting.Ordinary
    (clock : Clock) (r : Rewriting) (store : Store) (oid : String) (document : Object) :
    Prop where
  stored : documentAt store r.writeOptions.collection.text oid = some document
  format : r.readOptions.format = .db
  payload : lookup "payload" document = none
  own : Frozen document →
    lookup "_id" document = some (.object [("$oid", .string oid)]) ∧
      lookup "collection" document = some (.string r.writeOptions.collection.text)
  fresh : documentAt store r.writeOptions.collection.text (clock 3).newOid = none

section Calls

variable {c : Conversions} {clock : Clock} {r : Rewriting} {store : Store} {document : Object}
  {oid : String}

theorem Rewriting.Ordinary.placed
    (hordinary : r.Ordinary clock store oid document) (hstore : FiledStore store)
    (haccepted : Accepted document) {flag : Bool}
    (hflags : isReadonlyOrDeleted document = .ok flag) :
    Placed r.writeOptions.collection.text oid document := by
  have hfiled := hstore _ _ _ hordinary.stored
  have hown : lookup "_id" document = some (.object [("$oid", .string oid)]) ∧
      lookup "collection" document = some (.string r.writeOptions.collection.text) := by
    cases flag with
    | false => exact hfiled.own hflags
    | true => exact hordinary.own hflags
  exact ⟨haccepted, hown.1, hown.2, hfiled.oid_valid⟩

/-- A write to the place of a stored document keeps the ids. -/
theorem storedIds_of_replaced
    {store' : Store} {name oid : String} {document record : Object}
    (hstored : documentAt store name oid = some document)
    (hafter : ∀ name' oid', documentAt store' name' oid' =
      if name' = name ∧ oid' = oid then some record else documentAt store name' oid') :
    storedIds store' = storedIds store := by
  ext ⟨name', oid'⟩
  rw [mem_storedIds, mem_storedIds, hafter]
  split
  · rename_i hplace
    rw [hplace.1, hplace.2, hstored]
    simp
  · rfl

/-- An operation on a document that it reads as it is stored loses no id, and adds
one where a list of a frozen document was to be edited. -/
theorem storedIds_ordinary_iff
    (hstore : FiledStore store) (hordinary : r.Ordinary clock store oid document)
    (hselect : selectDocument r.readOptions store = .ok document) :
    storedIds (after (r.run c clock) store) = storedIds store ↔
      ¬ (Frozen document ∧ r.edit.onList ∧
        ∃ record, ovlDatabaseRecord (clock 0) document = .ok record) := by
  have hread := readDocument_db (c := c) r.load hordinary.format hselect
  cases hrecord : ovlDatabaseRecord (clock 0) document with
  | error e =>
      rw [after_run_refused hread hrecord]
      simp
  | ok record =>
      have haccepted : Accepted document :=
        ((hstore _ _ _ hordinary.stored).normal.overlay hrecord).2
      cases hflags : isReadonlyOrDeleted document with
      | error e =>
          rw [after_run_unreadable hread haccepted hflags]
          simp [Frozen, hflags]
      | ok flag =>
          have hplaced := hordinary.placed hstore haccepted hflags
          cases flag with
          | false =>
              have hwritable : Writable document := hflags
              have hkeeps : storedIds (after (r.run c clock) store) = storedIds store := by
                by_cases hlist : r.edit.onList
                · have hflags' := (kept_managedEdit haccepted hwritable hlist (clock 1)).writable
                    hwritable
                  exact storedIds_of_replaced hordinary.stored
                    (documentAt_run hread haccepted hordinary.payload hflags'
                      (placed_of_writable hplaced hwritable hlist))
                · have hfrozen := frozen_mark haccepted hwritable hlist (clock 1)
                  exact storedIds_of_replaced hordinary.stored
                    (documentAt_run hread haccepted hordinary.payload hfrozen
                      (placed_of_mark hplaced hfrozen hlist))
              simp [hkeeps, Frozen, hflags]
          | true =>
              have hfrozen : Frozen document := hflags
              have hfrozen' := frozen_managedEdit haccepted hfrozen r.edit (clock 1)
              by_cases hlist : r.edit.onList
              · have hcopy := documentAt_run hread haccepted hordinary.payload hfrozen'
                  (placed_of_frozen hplaced hfrozen hlist)
                have hadds : storedIds (after (r.run c clock) store) ≠ storedIds store := by
                  intro hsame
                  have hmem : (r.writeOptions.collection.text, (clock 3).newOid) ∈
                      storedIds (after (r.run c clock) store) := by
                    rw [mem_storedIds, hcopy, if_pos ⟨rfl, rfl⟩]
                    rfl
                  rw [hsame, mem_storedIds, hordinary.fresh] at hmem
                  simp at hmem
                simp [hadds, hfrozen, hlist]
              · have hkeeps : storedIds (after (r.run c clock) store) = storedIds store :=
                  storedIds_of_replaced hordinary.stored
                    (documentAt_run hread haccepted hordinary.payload hfrozen'
                      (placed_of_mark hplaced hfrozen' hlist))
                simp [hkeeps, hlist]

/-- The stored ids after a call are those before it exactly when its write, if it
is not refused, replaces a document; on an ordinary document this fails exactly
when a list of a frozen document was to be edited. -/
theorem management_storedIds_iff
    (hreachable : Reachable store) (c : Conversions) {call : ManagementCall}
    (hcall : call.rewriting = .ok r) (hselect : selectDocument r.readOptions store = .ok document) :
    (storedIds (after (call.perform c clock) store) = storedIds store ↔
        r.Replaces c clock store) ∧
      ∀ oid, r.Ordinary clock store oid document →
        (storedIds (after (call.perform c clock) store) = storedIds store ↔
          ¬ (Frozen document ∧ r.edit.onList ∧
            ∃ record, ovlDatabaseRecord (clock 0) document = .ok record)) := by
  have hperform : after (call.perform c clock) store = after (r.run c clock) store := by
    rw [after, perform_run c clock hcall, ← after]
  rw [hperform]
  exact ⟨storedIds_run_iff c clock r store, fun oid hordinary =>
    storedIds_ordinary_iff (filedStore_of_reachable hreachable) hordinary hselect⟩

end Calls

/-! ## A released document -/

/-- Conversions that refuse everything. -/
def noConversions : Conversions :=
  ⟨fun _ => none, fun _ => none, fun _ => none, fun _ => none, fun _ => none, fun _ => none,
    fun _ => none, fun _ => none, fun _ => none⟩

def exampleClock : Clock := fun _ => exampleEnvironment

/-- Options for the example document. -/
theorem run_ne : "run" ≠ "" := by decide

theorem v1_ne : "v1" ≠ "" := by decide

def exampleOptions (operation : String) : ManageDocumentOperation :=
  { operation := operation
    format := .db
    collection := ⟨"run", run_ne⟩
    version := ⟨"v1", v1_ne⟩
    entity := ⟨"e2", by decide⟩ }

/-- A store with one document. -/
def exampleStore : Store :=
  writes [] [(exampleEnvironment, examplePayload "v1" "e1" [])]

/-- The document of the example store. -/
def exampleDocument : Object :=
  (exampleRequest exampleEnvironment "v1" "e1" []).document

/-- What a call that passes its checks leaves of a store. -/
def performed (call : ManagementCall) (store : Store) : Store :=
  after (call.perform noConversions exampleClock) store

/-- The rewriting of `add_entity` with the example options. -/
def exampleRewriting : Rewriting where
  readOptions := detail.stepOptions (exampleOptions "addentity") "load" .db
  writeOptions := detail.stepOptions (exampleOptions "addentity") "store" .db
  resultOptions := detail.stepOptions (exampleOptions "addentity") "load" .db
  edit := .addEntity "e2"
  load := rfl
  writes := rfl
  db := rfl
  collection_eq := rfl

theorem rewriting_addEntity :
    (ManagementCall.addEntity (exampleOptions "addentity")).rewriting = .ok exampleRewriting := by
  decide

theorem management_storedIds_iff_addEntity :
    storedIds (performed (.addEntity (exampleOptions "addentity")) exampleStore) =
      storedIds exampleStore := by
  have hselect : selectDocument exampleRewriting.readOptions exampleStore =
      .ok exampleDocument := by
    decide +kernel
  have hordinary : exampleRewriting.Ordinary exampleClock exampleStore
      "cccccccccccccccccccccccc" exampleDocument :=
    ⟨by decide +kernel, rfl, by decide +kernel, by decide +kernel, by decide +kernel⟩
  have hwritable : ¬ Frozen exampleDocument := by decide +kernel
  have hiff := (management_storedIds_iff ⟨_, rfl⟩ noConversions rewriting_addEntity hselect).2
    "cccccccccccccccccccccccc" hordinary
  exact hiff.2 fun h => hwritable h.1

/-- The example store with its document released. -/
def releasedStore : Store :=
  performed (.markDocumentReadonly (exampleOptions "markreadonly")) exampleStore

/-- The document of the released store. -/
def releasedDocument : Object :=
  builderEdit exampleEnvironment .markReadonly exampleDocument

theorem releasedStore_reachable : Reachable releasedStore := by
  have hrewriting : ∃ r, (ManagementCall.markDocumentReadonly
      (exampleOptions "markreadonly")).rewriting = .ok r := ⟨_, rfl⟩
  obtain ⟨r, hr⟩ := hrewriting
  have hrun : releasedStore = after (r.run noConversions exampleClock) exampleStore := by
    rw [releasedStore, performed, after, perform_run noConversions exampleClock hr, ← after]
  rw [hrun]
  exact reachable_run ⟨_, rfl⟩ _ _ _

theorem documentAt_releasedStore :
    documentAt releasedStore "run" "cccccccccccccccccccccccc" = some releasedDocument := by
  decide +kernel

theorem releasedDocument_frozen : Frozen releasedDocument := by
  decide +kernel

/-- An entity that is added to a released document makes a copy of it. -/
theorem addEntity_copies_released :
    Reachable releasedStore ∧
      selectDocument exampleRewriting.readOptions releasedStore = .ok releasedDocument ∧
      documentAt releasedStore "run" "cccccccccccccccccccccccc" = some releasedDocument ∧
      Frozen releasedDocument ∧
      storedIds (performed (.addEntity (exampleOptions "addentity")) releasedStore) ≠
        storedIds releasedStore := by
  refine ⟨releasedStore_reachable, by decide +kernel, documentAt_releasedStore,
    releasedDocument_frozen, fun hsame => ?_⟩
  have hcopy : ("run", "bbbbbbbbbbbbbbbbbbbbbbbb") ∈
      storedIds (performed (.addEntity (exampleOptions "addentity")) releasedStore) := by
    rw [mem_storedIds]
    decide +kernel
  rw [hsame, mem_storedIds] at hcopy
  revert hcopy
  decide +kernel

end ArtdaqDatabase
