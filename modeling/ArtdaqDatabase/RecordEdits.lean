import ArtdaqDatabase.InPlaceUpdate
import ArtdaqDatabase.InterruptedRemoval
import ArtdaqDatabase.OverlayRecord

/-!
# Edits of a database record

The operations of `ovlDatabaseRecord` on the record they are attached to.  A
result that is not a success becomes an exception, as `ThrowOnFailure` makes it
in the builder; what was written before an exception stays written.
-/

namespace ArtdaqDatabase

open OrderedTable InPlaceUpdate InterruptedRemoval

/-- An edit of a record in place. -/
abbrev RecordM := InPlace Failure Object

/-! ## Flags -/

def bookkeepingOf (record : Object) : Except Failure Object :=
  objectAt "bookkeeping" record

/-- `isReadonlyOrDeleted`. -/
def isReadonlyOrDeleted (record : Object) : Except Failure Bool := do
  let bookkeeping ← bookkeepingOf record
  let isReadonly ← boolAt "isreadonly" bookkeeping
  if isReadonly then .ok true else boolAt "isdeleted" bookkeeping

def msgIsReadonly : Failure := .invalidArgument "\x7b\"message\":\"Document is readonly\"\x7d"

def msgMissing : Failure := .invalidArgument "\x7b\"message\":\"Missing\"\x7d"

/-- The check that opens every edit but `markDeleted`. -/
def whenWritable (edit : RecordM Unit) : RecordM Unit := do
  if ← fetch isReadonlyOrDeleted then throw msgIsReadonly else edit

/-- Set a flag that is there and is a boolean. -/
def setFlag (flag : String) : RecordM Unit := do
  let bookkeeping ← fetch bookkeepingOf
  let _ ← lift (boolAt flag bookkeeping)
  write (set "bookkeeping" (.object (set flag (.boolean true) bookkeeping)))

/-! ## The update log -/

/-- The entry that `postUpdate` appends. -/
def updateEntry (env : Environment) (event : String) (what : Value) : Value :=
  .object
    [("event", .string event), ("timestamp", .string env.timestamp),
      ("value",
        match what with
        | .object o => .object o
        | v => .object [("name", v), ("assigned", .string env.timestamp)])]

/-- `ovlBookkeeping::postUpdate`. -/
def postUpdate (env : Environment) (event : String) (what : Value) : RecordM Unit := do
  let bookkeeping ← fetch bookkeepingOf
  let isReadonly ← lift (boolAt "isreadonly" bookkeeping)
  if isReadonly then throw msgIsReadonly
  let updates ← lift (arrayAt "updates" bookkeeping)
  let updates := .array (updates ++ [updateEntry env event what])
  write (set "bookkeeping" (.object (set "updates" updates bookkeeping)))
  let updates ← lift (ovlFixedList ovlUpdate env updates)
  write (set "bookkeeping" (.object (set "updates" updates bookkeeping)))

/-! ## Lists -/

/-- The scan of `add`, which stops at the first entry of that name. -/
def containsName (newEntry : Value) : List Value → Except Failure Bool
  | [] => .ok false
  | entry :: rest => do
      let name ← nameOf entry
      let newName ← nameOf newEntry
      if name = newName then .ok true else containsName newEntry rest

/-- `ovlFixedList::add`. -/
def fixedListAdd
    (env : Environment) (key : String) (element : Overlay) (newEntry : Value) :
    RecordM Unit := do
  let entries ← fetch (arrayAt key)
  let found ← lift (containsName newEntry entries)
  if found then return
  write (set key (.array (entries ++ [newEntry])))
  let entries ← lift (ovlFixedList element env (.array (entries ++ [newEntry])))
  write (set key entries)

/-- The test of `remove`: a name that is not a text ends the scan. -/
def isNamedAs (oldEntry entry : Value) : Except Failure Bool := do
  let name ← nameOf entry
  let oldName ← nameOf oldEntry
  .ok (name = oldName)

/-- The entries of a name are erased in place before the checks; values are moved by
an exchange, so a scan that throws leaves all of them. -/
def eraseNamed (update : Value → RecordM Unit) (oldEntry : Value) (entries : List Value) :
    RecordM (List Value) := do
  let removal := removeIf (isNamedAs oldEntry) entries
  update (.array removal.1)
  lift removal.2
  if removal.1.length = entries.length then throw msgMissing
  lift (confirm (entries.length = removal.1.length + 1))
  return removal.1

def stampRemoved (env : Environment) (oldEntry : Value) : Except Failure Value := do
  let o ← oldEntry.getObject
  .ok (.object (set "removed" (.string env.timestamp) o))

/-- `ovlFixedList::remove`; returns the entry as the update log will see it. -/
def fixedListRemove
    (env : Environment) (key : String) (element : Overlay) (oldEntry : Value) :
    RecordM Value := do
  let entries ← fetch (arrayAt key)
  if entries = [] then return oldEntry
  let kept ← eraseNamed (fun v => write (set key v)) oldEntry entries
  let oldEntry ← lift (stampRemoved env oldEntry)
  let kept ← lift (ovlFixedList element env (.array kept))
  write (set key kept)
  return oldEntry

/-- `ovlFixedList::wipe`. -/
def fixedListWipe (key : String) : RecordM Unit := do
  let _ ← fetch (arrayAt key)
  write (set key (.array []))

def setAliases (key : String) (entries : Value) : RecordM Unit := do
  let aliases ← fetch (objectAt "aliases")
  write (set "aliases" (.object (set key entries aliases)))

/-- `ovlMovableList::add`. -/
def movableListAdd (env : Environment) (newEntry : Value) : RecordM Unit := do
  let aliases ← fetch (objectAt "aliases")
  let active ← lift (arrayAt "active" aliases)
  let found ← lift (containsName newEntry active)
  if found then return
  setAliases "active" (.array (active ++ [newEntry]))
  let active ← lift (ovlFixedList ovlAlias env (.array (active ++ [newEntry])))
  setAliases "active" active

/-- `ovlMovableList::remove`: the argument itself is moved to the history. -/
def movableListRemove (env : Environment) (oldEntry : Value) : RecordM Value := do
  let aliases ← fetch (objectAt "aliases")
  let active ← lift (arrayAt "active" aliases)
  let kept ← eraseNamed (setAliases "active") oldEntry active
  let kept ← lift (ovlFixedList ovlAlias env (.array kept))
  setAliases "active" kept
  let history ← lift (arrayAt "history" aliases)
  let oldEntry ← lift (stampRemoved env oldEntry)
  setAliases "history" (.array (history ++ [oldEntry]))
  let history ← lift (ovlFixedList ovlAlias env (.array (history ++ [oldEntry])))
  setAliases "history" history
  return oldEntry

/-! ## Operations of the record -/

/-- `addConfiguration`, `addEntity` and `addRun`. -/
def addToList
    (env : Environment) (event key : String) (element : Overlay) (entry : Value) :
    RecordM Unit :=
  whenWritable do
    fixedListAdd env key element entry
    postUpdate env event entry

/-- `removeConfiguration` and `removeEntity`. -/
def removeFromList
    (env : Environment) (event key : String) (element : Overlay) (entry : Value) :
    RecordM Unit :=
  whenWritable do
    let entry ← fixedListRemove env key element entry
    postUpdate env event entry

def recordAddAlias (env : Environment) (entry : Value) : RecordM Unit :=
  whenWritable do
    movableListAdd env entry
    postUpdate env "addAlias" entry

def recordRemoveAlias (env : Environment) (entry : Value) : RecordM Unit :=
  whenWritable do
    let entry ← movableListRemove env entry
    postUpdate env "removeAlias" entry

/-- `setVersion` and `setCollection`: the same text is ignored. -/
def setText (env : Environment) (event key : String) (text : Value) : RecordM Unit :=
  whenWritable do
    let old ← fetch (stringAt key)
    let new ← lift text.getString
    if old = new then return
    write (set key (.string new))
    postUpdate env event (.string new)

def recordSwapId (id : Value) : RecordM Unit :=
  whenWritable do
    let _ ← fetch (valueAt "_id")
    write (set "_id" id)

def recordMarkReadonly : RecordM Unit :=
  whenWritable (setFlag "isreadonly")

/-- `markDeleted`; its check is commented out in the source. -/
def recordMarkDeleted : RecordM Unit :=
  setFlag "isdeleted"

/-- `ovlId::newId`. -/
def recordNewId (env : Environment) : RecordM Unit := do
  let id ← fetch (objectAt "_id")
  let id := set "$oid" (.string env.newOid) id
  write (set "_id" (.object id))
  lift (confirm (count "$oid" id = 1))

end ArtdaqDatabase
