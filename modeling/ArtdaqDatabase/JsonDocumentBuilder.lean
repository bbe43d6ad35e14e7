import ArtdaqDatabase.GuardedRun
import ArtdaqDatabase.RecordEdits

/-!
# The document builder

`JSONDocumentBuilder` overlays its argument, hands it to the record and drops
every exception, so that an edit of a frozen record is an edit that has no
effect.  The operations that reach the lists and the id by another route are
the exceptions.
-/

namespace ArtdaqDatabase

open OrderedTable InPlaceUpdate GuardedRun

inductive BuilderOperation where
  | addAlias (veralias : Value)
  | removeAlias (veralias : Value)
  | addConfiguration (config : Value)
  | removeConfiguration (config : Value)
  | removeAllConfigurations
  | addEntity (entity : Value)
  | removeEntity (entity : Value)
  | removeAllEntities
  | addRun (run : Value)
  | setVersion (version : Value)
  | setCollection (collection : Value)
  | setObjectID (objectId : Value)
  | newObjectID
  | markReadonly
  | markDeleted
  deriving DecidableEq

/-- The argument is overlaid before the record is touched. -/
def withOverlay (overlaid : Except Failure Value) (edit : Value → RecordM Unit) :
    RecordM Unit := do
  let ovl ← lift overlaid
  edit ovl

/-- The body of a builder operation. -/
def BuilderOperation.perform (env : Environment) : BuilderOperation → RecordM Unit
  | .addAlias veralias => withOverlay (ovlAlias env veralias) (recordAddAlias env)
  | .removeAlias veralias => withOverlay (ovlAlias env veralias) (recordRemoveAlias env)
  | .addConfiguration config =>
      withOverlay (ovlConfiguration env config)
        (addToList env "addConfiguration" "configurations" ovlConfiguration)
  | .removeConfiguration config =>
      withOverlay (ovlConfiguration env config)
        (removeFromList env "removeConfiguration" "configurations" ovlConfiguration)
  | .removeAllConfigurations => fixedListWipe "configurations"
  | .addEntity entity =>
      withOverlay (ovlEntity env entity) (addToList env "addEntity" "entities" ovlEntity)
  | .removeEntity entity =>
      withOverlay (ovlEntity env entity)
        (removeFromList env "removeEntity" "entities" ovlEntity)
  | .removeAllEntities => fixedListWipe "entities"
  | .addRun run => withOverlay (ovlRun env run) (addToList env "addRun" "runs" ovlRun)
  | .setVersion version =>
      withOverlay (findChildValue ["name"] version >>= ovlStringKeyValue env)
        (setText env "setVersion" "version")
  | .setCollection collection =>
      withOverlay
        (findChild "collection" collection >>= findChildValue ["collection"] >>=
          ovlStringKeyValue env)
        (setText env "setCollection" "collection")
  | .setObjectID objectId =>
      withOverlay (findChildValue ["_id"] objectId >>= ovlId env) recordSwapId
  | .newObjectID => recordNewId env
  | .markReadonly => recordMarkReadonly
  | .markDeleted => recordMarkDeleted

/-- One builder operation on the record it is attached to. -/
def builderEdit (env : Environment) (op : BuilderOperation) (record : Object) : Object :=
  after (op.perform env) record

/-- A sequence of operations, each at its own time. -/
def builderEdits (record : Object) (ops : List (Environment × BuilderOperation)) : Object :=
  run (fun record p => builderEdit p.1 p.2 record) record ops

/-! ## What an operation can reach -/

/-- The members of the record that an operation may rewrite. -/
def touchedKeys : BuilderOperation → List String
  | .addAlias _ | .removeAlias _ => ["aliases", "bookkeeping"]
  | .addConfiguration _ | .removeConfiguration _ => ["configurations", "bookkeeping"]
  | .removeAllConfigurations => ["configurations"]
  | .addEntity _ | .removeEntity _ => ["entities", "bookkeeping"]
  | .removeAllEntities => ["entities"]
  | .addRun _ => ["runs", "bookkeeping"]
  | .setVersion _ => ["version", "bookkeeping"]
  | .setCollection _ => ["collection", "bookkeeping"]
  | .setObjectID _ | .newObjectID => ["_id"]
  | .markReadonly | .markDeleted => ["bookkeeping"]

section Frames

variable {env : Environment} {k : String}

theorem keeps_whenWritable {edit : RecordM Unit} (hedit : Keeps (lookup k) edit) :
    Keeps (lookup k) (whenWritable edit) :=
  (Keeps.fetch _).bind fun _ => Keeps.ite (Keeps.throw _) hedit

theorem keeps_withOverlay
    {edit : Value → RecordM Unit} (hedit : ∀ ovl, Keeps (lookup k) (edit ovl))
    (overlaid : Except Failure Value) :
    Keeps (lookup k) (withOverlay overlaid edit) :=
  (Keeps.lift _).bind hedit

theorem keeps_writeMember {key : String} (hk : k ≠ key) (v : Value) :
    Keeps (lookup k) (write (set key v) : RecordM Unit) :=
  Keeps.write fun _ => lookup_set_of_ne hk _ _

theorem keeps_setFlag (flag : String) (hk : k ≠ "bookkeeping") :
    Keeps (lookup k) (setFlag flag) :=
  (Keeps.fetch _).bind fun _ => (Keeps.lift _).bind fun _ => keeps_writeMember hk _

theorem keeps_postUpdate (hk : k ≠ "bookkeeping") (event : String) (what : Value) :
    Keeps (lookup k) (postUpdate env event what) :=
  (Keeps.fetch _).bind fun _ => (Keeps.lift _).bind fun _ =>
    Keeps.check <| (Keeps.lift _).bind fun _ => (keeps_writeMember hk _).bind fun _ =>
      (Keeps.lift _).bind fun _ => keeps_writeMember hk _

theorem keeps_fixedListAdd
    {key : String} (hk : k ≠ key) (element : Overlay) (entry : Value) :
    Keeps (lookup k) (fixedListAdd env key element entry) :=
  (Keeps.fetch _).bind fun _ => (Keeps.lift _).bind fun _ =>
    Keeps.ite (Keeps.pure _) ((keeps_writeMember hk _).bind fun _ =>
      (Keeps.lift _).bind fun _ => keeps_writeMember hk _)

theorem keeps_eraseNamed
    {update : Value → RecordM Unit} (hupdate : ∀ v, Keeps (lookup k) (update v))
    (entry : Value) (entries : List Value) :
    Keeps (lookup k) (eraseNamed update entry entries) :=
  (hupdate _).bind fun _ => (Keeps.lift _).bind fun _ => Keeps.check <|
    (Keeps.lift _).bind fun _ => Keeps.pure _

theorem keeps_fixedListRemove
    {key : String} (hk : k ≠ key) (element : Overlay) (entry : Value) :
    Keeps (lookup k) (fixedListRemove env key element entry) :=
  (Keeps.fetch _).bind fun _ => Keeps.ite (Keeps.pure _) <|
    (keeps_eraseNamed (fun _ => keeps_writeMember hk _) _ _).bind fun _ =>
      (Keeps.lift _).bind fun _ => (Keeps.lift _).bind fun _ =>
        (keeps_writeMember hk _).bind fun _ => Keeps.pure _

theorem keeps_fixedListWipe {key : String} (hk : k ≠ key) :
    Keeps (lookup k) (fixedListWipe key) :=
  (Keeps.fetch _).bind fun _ => keeps_writeMember hk _

theorem keeps_setAliases (hk : k ≠ "aliases") (key : String) (entries : Value) :
    Keeps (lookup k) (setAliases key entries) :=
  (Keeps.fetch _).bind fun _ => keeps_writeMember hk _

theorem keeps_movableListAdd (hk : k ≠ "aliases") (entry : Value) :
    Keeps (lookup k) (movableListAdd env entry) :=
  (Keeps.fetch _).bind fun _ => (Keeps.lift _).bind fun _ => (Keeps.lift _).bind fun _ =>
    Keeps.ite (Keeps.pure _) ((keeps_setAliases hk _ _).bind fun _ =>
      (Keeps.lift _).bind fun _ => keeps_setAliases hk _ _)

theorem keeps_movableListRemove (hk : k ≠ "aliases") (entry : Value) :
    Keeps (lookup k) (movableListRemove env entry) :=
  (Keeps.fetch _).bind fun _ => (Keeps.lift _).bind fun _ =>
    (keeps_eraseNamed (fun _ => keeps_setAliases hk _ _) _ _).bind fun _ =>
      (Keeps.lift _).bind fun _ => (keeps_setAliases hk _ _).bind fun _ =>
        (Keeps.lift _).bind fun _ => (Keeps.lift _).bind fun _ =>
          (keeps_setAliases hk _ _).bind fun _ => (Keeps.lift _).bind fun _ =>
            (keeps_setAliases hk _ _).bind fun _ => Keeps.pure _

theorem keeps_addToList
    {key : String} (hk : k ≠ key) (hbook : k ≠ "bookkeeping")
    (event : String) (element : Overlay) (entry : Value) :
    Keeps (lookup k) (addToList env event key element entry) :=
  keeps_whenWritable ((keeps_fixedListAdd hk _ _).bind fun _ => keeps_postUpdate hbook _ _)

theorem keeps_removeFromList
    {key : String} (hk : k ≠ key) (hbook : k ≠ "bookkeeping")
    (event : String) (element : Overlay) (entry : Value) :
    Keeps (lookup k) (removeFromList env event key element entry) :=
  keeps_whenWritable ((keeps_fixedListRemove hk _ _).bind fun _ => keeps_postUpdate hbook _ _)

theorem keeps_setText
    {key : String} (hk : k ≠ key) (hbook : k ≠ "bookkeeping")
    (event : String) (text : Value) :
    Keeps (lookup k) (setText env event key text) :=
  keeps_whenWritable ((Keeps.fetch _).bind fun _ => (Keeps.lift _).bind fun _ =>
    Keeps.ite (Keeps.pure _) ((keeps_writeMember hk _).bind fun _ =>
      keeps_postUpdate hbook _ _))

theorem keeps_recordNewId (hk : k ≠ "_id") : Keeps (lookup k) (recordNewId env) :=
  (Keeps.fetch _).bind fun _ => (keeps_writeMember hk _).bind fun _ => Keeps.lift _

theorem keeps_perform {op : BuilderOperation} (hk : k ∉ touchedKeys op) :
    Keeps (lookup k) (op.perform env) := by
  cases op <;> simp only [touchedKeys, List.mem_cons, List.not_mem_nil, or_false, not_or] at hk
  case addAlias =>
    exact keeps_withOverlay (fun _ => keeps_whenWritable
      ((keeps_movableListAdd hk.1 _).bind fun _ => keeps_postUpdate hk.2 _ _)) _
  case removeAlias =>
    exact keeps_withOverlay (fun _ => keeps_whenWritable
      ((keeps_movableListRemove hk.1 _).bind fun _ => keeps_postUpdate hk.2 _ _)) _
  case addConfiguration | addEntity | addRun =>
    exact keeps_withOverlay (fun _ => keeps_addToList hk.1 hk.2 _ _ _) _
  case removeConfiguration | removeEntity =>
    exact keeps_withOverlay (fun _ => keeps_removeFromList hk.1 hk.2 _ _ _) _
  case removeAllConfigurations | removeAllEntities => exact keeps_fixedListWipe hk
  case setVersion | setCollection =>
    exact keeps_withOverlay (fun _ => keeps_setText hk.1 hk.2 _ _) _
  case setObjectID =>
    exact keeps_withOverlay (fun _ => keeps_whenWritable
      ((Keeps.fetch _).bind fun _ => keeps_writeMember hk _)) _
  case newObjectID => exact keeps_recordNewId hk
  case markReadonly => exact keeps_whenWritable (keeps_setFlag _ hk)
  case markDeleted => exact keeps_setFlag _ hk

/-- An operation leaves every member alone that it does not touch. -/
theorem lookup_builderEdit_of_untouched
    {op : BuilderOperation} (hk : k ∉ touchedKeys op) (record : Object) :
    lookup k (builderEdit env op record) = lookup k record :=
  keeps_perform hk record

end Frames

/-! ## Frozen records -/

def Frozen (record : Object) : Prop :=
  isReadonlyOrDeleted record = .ok true

instance (record : Object) : Decidable (Frozen record) :=
  inferInstanceAs (Decidable (_ = _))

/-- The flags can be read, and none is set. -/
def Writable (record : Object) : Prop :=
  isReadonlyOrDeleted record = .ok false

instance (record : Object) : Decidable (Writable record) :=
  inferInstanceAs (Decidable (_ = _))

theorem Frozen.not_writable {record : Object} (hfrozen : Frozen record) :
    ¬ Writable record := by
  intro hwritable
  rw [Writable, hfrozen] at hwritable
  simp at hwritable

theorem whenWritable_of_not_writable
    {record : Object} (hnot : ¬ Writable record) (edit : RecordM Unit) :
    ∃ e, whenWritable edit record = .error e record := by
  cases hflags : isReadonlyOrDeleted record with
  | error e => exact ⟨e, bind_error (fetch_error hflags)⟩
  | ok flag =>
      cases flag with
      | false => exact absurd hflags hnot
      | true =>
          refine ⟨msgIsReadonly, ?_⟩
          rw [whenWritable, bind_run (fetch_ok hflags), if_pos rfl]
          rfl

theorem after_whenWritable_of_not_writable
    {record : Object} (hnot : ¬ Writable record) (edit : RecordM Unit) :
    after (whenWritable edit) record = record := by
  obtain ⟨e, herror⟩ := whenWritable_of_not_writable hnot edit
  exact after_of_error herror

theorem after_withOverlay
    {record : Object} (overlaid : Except Failure Value) {edit : Value → RecordM Unit}
    (hedit : ∀ ovl, after (edit ovl) record = record) :
    after (withOverlay overlaid edit) record = record := by
  cases overlaid with
  | error e => rfl
  | ok ovl => exact hedit ovl

/-- The members that an operation reaches without asking for the flags. -/
def uncheckedKeys : BuilderOperation → List String
  | .removeAllConfigurations => ["configurations"]
  | .removeAllEntities => ["entities"]
  | .newObjectID => ["_id"]
  | .markDeleted => ["bookkeeping"]
  | _ => []

theorem builderEdit_of_not_writable
    {record : Object} (hnot : ¬ Writable record) {op : BuilderOperation}
    (hop : uncheckedKeys op = []) (env : Environment) :
    builderEdit env op record = record := by
  cases op with
  | addAlias veralias =>
      exact after_withOverlay _ fun _ => after_whenWritable_of_not_writable hnot _
  | removeAlias veralias =>
      exact after_withOverlay _ fun _ => after_whenWritable_of_not_writable hnot _
  | addConfiguration config =>
      exact after_withOverlay _ fun _ => after_whenWritable_of_not_writable hnot _
  | removeConfiguration config =>
      exact after_withOverlay _ fun _ => after_whenWritable_of_not_writable hnot _
  | addEntity entity =>
      exact after_withOverlay _ fun _ => after_whenWritable_of_not_writable hnot _
  | removeEntity entity =>
      exact after_withOverlay _ fun _ => after_whenWritable_of_not_writable hnot _
  | addRun run =>
      exact after_withOverlay _ fun _ => after_whenWritable_of_not_writable hnot _
  | setVersion version =>
      exact after_withOverlay _ fun _ => after_whenWritable_of_not_writable hnot _
  | setCollection collection =>
      exact after_withOverlay _ fun _ => after_whenWritable_of_not_writable hnot _
  | setObjectID objectId =>
      exact after_withOverlay _ fun _ => after_whenWritable_of_not_writable hnot _
  | markReadonly => exact after_whenWritable_of_not_writable hnot _
  | removeAllConfigurations => simp [uncheckedKeys] at hop
  | removeAllEntities => simp [uncheckedKeys] at hop
  | newObjectID => simp [uncheckedKeys] at hop
  | markDeleted => simp [uncheckedKeys] at hop

theorem builderEdit_of_frozen
    {record : Object} (hfrozen : Frozen record) {op : BuilderOperation}
    (hop : uncheckedKeys op = []) (env : Environment) :
    builderEdit env op record = record :=
  builderEdit_of_not_writable hfrozen.not_writable hop env

/-- On a frozen record an operation changes only what it reaches unchecked. -/
theorem lookup_builderEdit_of_frozen
    {record : Object} (hfrozen : Frozen record) (env : Environment)
    {op : BuilderOperation} {k : String} (hk : k ∉ uncheckedKeys op) :
    lookup k (builderEdit env op record) = lookup k record := by
  by_cases hop : uncheckedKeys op = []
  · rw [builderEdit_of_frozen hfrozen hop]
  · cases op with
    | removeAllConfigurations => exact lookup_builderEdit_of_untouched hk record
    | removeAllEntities => exact lookup_builderEdit_of_untouched hk record
    | newObjectID => exact lookup_builderEdit_of_untouched hk record
    | markDeleted => exact lookup_builderEdit_of_untouched hk record
    | _ => exact absurd rfl hop

theorem isReadonlyOrDeleted_congr
    {record record' : Object}
    (hbookkeeping : lookup "bookkeeping" record' = lookup "bookkeeping" record) :
    isReadonlyOrDeleted record' = isReadonlyOrDeleted record := by
  have hof : bookkeepingOf record' = bookkeepingOf record := by
    simp only [bookkeepingOf, objectAt, valueAt, hbookkeeping]
  simp only [isReadonlyOrDeleted, hof]

theorem frozen_builderEdit
    {record : Object} (hfrozen : Frozen record) (env : Environment)
    {op : BuilderOperation} (hop : op ≠ .markDeleted) :
    Frozen (builderEdit env op record) := by
  have hkey : "bookkeeping" ∉ uncheckedKeys op := by
    cases op <;> simp [uncheckedKeys] at hop ⊢
  rw [Frozen, isReadonlyOrDeleted_congr (lookup_builderEdit_of_frozen hfrozen env hkey)]
  exact hfrozen

/-- A member of the `_id` object. -/
def idMember (k : String) (record : Object) : Option Value :=
  match lookup "_id" record with
  | some (.object id) => lookup k id
  | _ => none

/-- `newId` replaces `$oid` and no other member of the id. -/
theorem idMember_builderEdit_of_frozen
    {record : Object} (hfrozen : Frozen record) (env : Environment)
    {op : BuilderOperation} {k : String} (hk : k ≠ "$oid") :
    idMember k (builderEdit env op record) = idMember k record := by
  by_cases hop : "_id" ∈ uncheckedKeys op
  · cases op with
    | newObjectID =>
        cases hid : objectAt "_id" record with
        | error e =>
            have herror : recordNewId env record = .error e record :=
              bind_error (fetch_error hid)
            rw [builderEdit, BuilderOperation.perform, after_of_error herror]
        | ok id =>
            have hafter : after (recordNewId env) record =
                set "_id" (.object (set "$oid" (.string env.newOid) id)) record := by
              rw [recordNewId, after_bind (fetch_ok hid), after_bind (write_run _ _),
                after_lift]
            rw [objectAt_eq_ok] at hid
            rw [builderEdit, BuilderOperation.perform, hafter, idMember, idMember,
              lookup_set_self, hid]
            exact lookup_set_of_ne hk _ _
    | _ => simp [uncheckedKeys] at hop
  · rw [idMember, idMember, lookup_builderEdit_of_frozen hfrozen env hop]

/-- What a sequence of operations leaves of a frozen record. -/
structure KeptFrozen
    (ops : List (Environment × BuilderOperation)) (record record' : Object) : Prop where
  frozen : Frozen record'
  section_eq : ∀ k, k ∉ ["_id", "configurations", "entities"] →
    lookup k record' = lookup k record
  configurations_eq : (∀ p ∈ ops, p.2 ≠ .removeAllConfigurations) →
    lookup "configurations" record' = lookup "configurations" record
  entities_eq : (∀ p ∈ ops, p.2 ≠ .removeAllEntities) →
    lookup "entities" record' = lookup "entities" record
  id_eq : (∀ p ∈ ops, p.2 ≠ .newObjectID) → lookup "_id" record' = lookup "_id" record
  idMember_eq : ∀ k, k ≠ "$oid" → idMember k record' = idMember k record
  record_eq : (∀ p ∈ ops, uncheckedKeys p.2 = []) → record' = record

/-- Along a sequence without `markDeleted` a frozen record stays as it is, but for
the members that the unchecked operations of the sequence reach. -/
theorem builderEdits_frozen
    {record : Object} (hfrozen : Frozen record)
    {ops : List (Environment × BuilderOperation)} (hops : ∀ p ∈ ops, p.2 ≠ .markDeleted) :
    KeptFrozen ops record (builderEdits record ops) := by
  induction ops generalizing record with
  | nil =>
      exact ⟨hfrozen, fun _ _ => rfl, fun _ => rfl, fun _ => rfl, fun _ => rfl,
        fun _ _ => rfl, fun _ => rfl⟩
  | cons p ops ih =>
      obtain ⟨env, op⟩ := p
      have hop : op ≠ .markDeleted := hops (env, op) (by simp)
      have hrest := ih (frozen_builderEdit hfrozen env hop)
        fun q hq => hops q (List.mem_cons_of_mem _ hq)
      have hkept : ∀ k, k ∉ uncheckedKeys op →
          lookup k (builderEdit env op record) = lookup k record :=
        fun k hk => lookup_builderEdit_of_frozen hfrozen env hk
      refine ⟨hrest.frozen, fun k hk => ?_, fun hnone => ?_, fun hnone => ?_,
        fun hnone => ?_, fun k hk => ?_, fun hnone => ?_⟩
      · refine (hrest.section_eq k hk).trans (hkept k ?_)
        cases op <;> simp [uncheckedKeys] at hop hk ⊢ <;> tauto
      · refine (hrest.configurations_eq
          fun q hq => hnone q (List.mem_cons_of_mem _ hq)).trans (hkept _ ?_)
        have hne := hnone (env, op) (by simp)
        cases op <;> simp [uncheckedKeys] at hne ⊢
      · refine (hrest.entities_eq
          fun q hq => hnone q (List.mem_cons_of_mem _ hq)).trans (hkept _ ?_)
        have hne := hnone (env, op) (by simp)
        cases op <;> simp [uncheckedKeys] at hne ⊢
      · refine (hrest.id_eq
          fun q hq => hnone q (List.mem_cons_of_mem _ hq)).trans (hkept _ ?_)
        have hne := hnone (env, op) (by simp)
        cases op <;> simp [uncheckedKeys] at hne ⊢
      · exact (hrest.idMember_eq k hk).trans
          (idMember_builderEdit_of_frozen hfrozen env hk)
      · have hhead : builderEdit env op record = record :=
          builderEdit_of_frozen hfrozen (hnone (env, op) (by simp)) env
        rw [builderEdits, run_cons, hhead]
        rw [hhead] at hrest
        exact hrest.record_eq fun q hq => hnone q (List.mem_cons_of_mem _ hq)

/-! ## A frozen record -/

/-- What the overlay makes of an empty document, marked readonly. -/
def readonlyRecord : Object :=
  match ovlDatabaseRecord exampleEnvironment [] with
  | .ok record => builderEdit exampleEnvironment .markReadonly record
  | .error _ => []

theorem readonlyRecord_frozen : Frozen readonlyRecord := by
  decide

theorem builderEdits_frozen_readonlyRecord :
    KeptFrozen
      [(exampleEnvironment, .setVersion (.object [("name", .string "v2")])),
        (exampleEnvironment, .newObjectID)]
      readonlyRecord
      (builderEdits readonlyRecord
        [(exampleEnvironment, .setVersion (.object [("name", .string "v2")])),
          (exampleEnvironment, .newObjectID)]) :=
  builderEdits_frozen readonlyRecord_frozen (by decide)

/-- `newId` gives a frozen record another id. -/
theorem newObjectID_changes_frozen :
    Frozen readonlyRecord ∧
      ovlDatabaseRecord exampleEnvironment readonlyRecord = .ok readonlyRecord ∧
      builderEdits readonlyRecord [(exampleEnvironment, .newObjectID)] ≠ readonlyRecord := by
  decide

end ArtdaqDatabase
