import ArtdaqDatabase.IndexFile
import ArtdaqDatabase.ManageDocument
import ArtdaqDatabase.RereadDocuments
import ArtdaqDatabase.Simulation

/-!
# The files of a collection

The provider keeps the text of each document in a file of its own and the index in
another one, which is opened for a part of a call, created where it is missing, and
written back where it was changed.  Every call of the provider on the files gives the
same replies as on the documents themselves, but for the decimals of what is read.
-/

namespace ArtdaqDatabase

open OrderedTable InPlaceUpdate InvertedIndex

/-! ## Files -/

/-- The directory of a collection: the texts of its documents by their ids, and the
text of the index once it was created. -/
structure Directory where
  files : Table String String
  index : Option String
  deriving DecidableEq

def Directory.empty : Directory :=
  ⟨[], none⟩

/-- The directories of a database by the names of their collections. -/
abbrev Files := Table String Directory

def directoryAt (name : String) (files : Files) : Directory :=
  (lookup name files).getD Directory.empty

/-- Work on one directory, which is made if it is not there. -/
def onDirectory {α : Type} (name : String) (x : InPlace Failure Directory α) :
    InPlace Failure Files α := fun files =>
  match x (directoryAt name files) with
  | .ok a d => .ok a (set name d files)
  | .error e d => .error e (set name d files)

/-- An opened `SearchIndex`. -/
structure OpenIndex where
  index : SearchIndex
  isDirty : Bool
  deriving DecidableEq

section Provider

variable (decimalText : List Char → String)

/-- `JSONDocument::readJson`. -/
def readJson (text : String) : Except Failure Object :=
  if text = "" then .error (.invalidArgument "Failed reading JSON: Empty JSON buffer")
  else
    match JsonReader.read decimalText text with
    | .ok (some ast) => .ok ast
    | _ => .error (.invalidArgument ("Failed reading JSON: Invalid json; json_buffer=" ++ text))

/-! ## The index of a directory -/

/-- `SearchIndex::_open`, which creates a missing file first. -/
def openIndex : InPlace Failure Directory OpenIndex := do
  write fun d => { d with index := some (d.index.getD emptyFilesystemIndex) }
  let index ← fetch fun d => readIndex decimalText (d.index.getD "")
  return ⟨index, false⟩

/-- `SearchIndex::_close`, whose failures the destructor drops. -/
def Directory.closed (d : Directory) (opened : OpenIndex) : Directory :=
  if opened.isDirty then
    match JsonWriter.write opened.index.ast with
    | .ok text => { d with index := some text }
    | .error _ => d
  else d

/-- The scope of an opened index, which is closed on every way out. -/
def withSearchIndex {α : Type} (body : InPlace Failure (Directory × OpenIndex) α) :
    InPlace Failure Directory α := fun d =>
  match openIndex decimalText d with
  | .error e d' => .error e d'
  | .ok opened d' =>
      match body (d', opened) with
      | .ok a s => .ok a (s.1.closed s.2)
      | .error e s => .error e (s.1.closed s.2)

/-- What `addDocument` and `removeDocument` share: the document is printed and read
again before the index is touched. -/
def onDocument (update : Object → String → IndexM Bool) (document : Object) (ouid : String) :
    InPlace Failure (Directory × OpenIndex) Bool := do
  lift (confirm (ouid ≠ ""))
  match ← lift (JsonReader.read decimalText (writeJson document)) with
  | some ast => do
      write fun s => (s.1, { s.2 with isDirty := true })
      within (fun s => .ok s.2.index) (fun index s => (s.1, { s.2 with index := index }))
        (update ast ouid)
  | none => return false

/-! ## Writing and reading -/

/-- Only a `runtime_error` is thrown again. -/
def keepRuntimeError {σ : Type} : Failure → InPlace Failure σ Unit
  | .runtimeError text => throw (.runtimeError text)
  | _ => pure ()

/-- The search for a duplicate of a new document. -/
def checkDuplicateIn (request : WriteRequest) : InPlace Failure Directory Unit :=
  tryCatch
    (do
      let filter ← lift (duplicateFilter request.userDocument)
      let existing ← withSearchIndex decimalText (fetch fun s => findDocumentIDs s.2.index filter)
      if existing ≠ [] then throw (msgDuplicate request))
    keepRuntimeError

def checkInsertIn (request : WriteRequest) : InPlace Failure Directory Unit := do
  if request.isNew then
    if ← fetch fun d => .ok (lookup request.oid d.files).isSome then throw (msgFileExists request)
    else checkDuplicateIn decimalText request

/-- The file that is about to be replaced is struck from the index. -/
def removeFile (request : WriteRequest) : InPlace Failure (Directory × OpenIndex) Unit := do
  if !request.isNew then
    let oldJson ← fetch fun s => .ok ((lookup request.oid s.1.files).getD "")
    if oldJson ≠ "" then
      let document ← lift (readJson decimalText oldJson)
      let _ ← onDocument decimalText removeDocument document request.oid

def replaceFile (request : WriteRequest) : InPlace Failure (Directory × OpenIndex) Unit := do
  let json := writeJson request.document
  removeFile decimalText request
  write fun s => ({ s.1 with files := set request.oid json s.1.files }, s.2)
  let document ← lift (readJson decimalText json)
  let _ ← onDocument decimalText addDocument document request.oid

def writeToDirectory (request : WriteRequest) : InPlace Failure Directory Unit := do
  checkInsertIn decimalText request
  withSearchIndex decimalText (replaceFile decimalText request)

/-- `StorageProvider::writeDocument` on the files. -/
def writeDocumentFile (env : Environment) (arg : Value) : InPlace Failure Files Value := do
  let request ← lift (writeRequest env arg)
  onDirectory request.collection (writeToDirectory decimalText request)
  return toId request.oid

def msgMissingFile (oid : String) : Failure :=
  .runtimeError ("Failed to read a data file, file=" ++ oid ++ ".json;")

/-- `read_buffer_from_file` and the document of the text. -/
def readDocumentFile (oid : String) (d : Directory) : Except Failure Object :=
  match lookup oid d.files with
  | some json => readJson decimalText json
  | none => .error (msgMissingFile oid)

/-- `StorageProvider::readDocument` on the files. -/
def readDocumentFiles (payload : Value) : InPlace Failure Files (List Object) := do
  let name ← lift (readCollectionName payload)
  onDirectory name <| withSearchIndex decimalText do
    let oids ← fetch fun s => findDocumentIDs s.2.index (writeFilter payload)
    oids.mapM fun oid => fetch fun s => readDocumentFile decimalText oid s.1

/-! ## A directory that holds a collection -/

/-- The files are the texts of the documents, and the index is read from its file. -/
structure Holds (d : Directory) (c : Collection) : Prop where
  files : ∀ oid, lookup oid d.files = (c.stored oid).map writeJson
  printable : ∀ oid document, c.stored oid = some document → membersPrintable document
  raw : RawIndex c.index
  index : readIndex decimalText (d.index.getD emptyFilesystemIndex) = .ok c.index

/-- The same with an opened index, whose file counts until the index is changed. -/
structure HoldsOpen (s : Directory × OpenIndex) (c : Collection) : Prop where
  files : ∀ oid, lookup oid s.1.files = (c.stored oid).map writeJson
  printable : ∀ oid document, c.stored oid = some document → membersPrintable document
  raw : RawIndex c.index
  opened : s.2.index = c.index
  index : s.2.isDirty = false →
    readIndex decimalText (s.1.index.getD emptyFilesystemIndex) = .ok c.index

theorem holds_empty : Holds decimalText Directory.empty Collection.empty where
  files oid := rfl
  printable oid document hstored := by simp at hstored
  raw := rawIndex_empty
  index := readIndex_empty decimalText

/-- An index that is opened is the one of the collection. -/
theorem openIndex_run {d : Directory} {c : Collection} (hd : Holds decimalText d c) :
    openIndex decimalText d =
      .ok ⟨c.index, false⟩ { d with index := some (d.index.getD emptyFilesystemIndex) } := by
  have hindex : fetch (fun d : Directory => readIndex decimalText (d.index.getD ""))
      { d with index := some (d.index.getD emptyFilesystemIndex) } = .ok c.index _ :=
    fetch_ok hd.index
  rw [openIndex, bind_run (write_run _ _), bind_run hindex]
  rfl

theorem Holds.opened {d : Directory} {c : Collection} (hd : Holds decimalText d c) :
    HoldsOpen decimalText
      ({ d with index := some (d.index.getD emptyFilesystemIndex) }, ⟨c.index, false⟩) c where
  files := hd.files
  printable := hd.printable
  raw := hd.raw
  opened := rfl
  index _ := hd.index

/-- A changed index is written, and the file of another one is still right. -/
theorem HoldsOpen.closed
    {s : Directory × OpenIndex} {c : Collection} (hs : HoldsOpen decimalText s c) :
    Holds decimalText (s.1.closed s.2) c := by
  unfold Directory.closed
  split
  · rw [JsonWriter.write_ok (ast_ne_nil s.2.index), hs.opened]
    exact ⟨hs.files, hs.printable, hs.raw, readIndex_written decimalText hs.raw⟩
  · rename_i hclean
    exact ⟨hs.files, hs.printable, hs.raw, hs.index (Bool.not_eq_true _ ▸ hclean)⟩

section Scope

variable {α β : Type} {Q : α → β → Prop} {E : Failure → Failure → Prop}

theorem simulates_withSearchIndex
    {body : InPlace Failure (Directory × OpenIndex) α} {y : InPlace Failure Collection β}
    (h : Simulates (HoldsOpen decimalText) Q E body y) :
    Simulates (Holds decimalText) Q E (withSearchIndex decimalText body) y := by
  intro d c hd
  have hbody := h _ _ hd.opened
  rw [withSearchIndex, openIndex_run decimalText hd]
  dsimp only
  generalize body _ = r at hbody ⊢
  generalize y c = r' at hbody ⊢
  cases hbody with
  | ok hresult hstate => exact .ok hresult hstate.closed
  | error hresult hstate => exact .error hresult hstate.closed

/-- The directories hold the collections of the store. -/
def HoldsAll (files : Files) (store : Store) : Prop :=
  ∀ name, Holds decimalText (directoryAt name files) (collectionAt name store)

theorem holdsAll_empty : HoldsAll decimalText [] [] :=
  fun _ => holds_empty decimalText

theorem directoryAt_set (name name' : String) (d : Directory) (files : Files) :
    directoryAt name' (set name d files) = if name' = name then d else directoryAt name' files := by
  rw [directoryAt, lookup_set]
  split <;> simp [directoryAt]

theorem HoldsAll.set
    {files : Files} {store : Store} (hall : HoldsAll decimalText files store) {name : String}
    {d : Directory} {c : Collection} (hd : Holds decimalText d c) :
    HoldsAll decimalText (OrderedTable.set name d files) (OrderedTable.set name c store) := by
  intro name'
  rw [directoryAt_set, collectionAt_set]
  split
  · exact hd
  · exact hall name'

theorem simulates_onDirectory
    {x : InPlace Failure Directory α} {y : InPlace Failure Collection β} (name : String)
    (h : Simulates (Holds decimalText) Q E x y) :
    Simulates (HoldsAll decimalText) Q E (onDirectory name x) (onCollection name y) := by
  intro files store hall
  have hdirectory := h _ _ (hall name)
  rw [onDirectory, onCollection]
  generalize x _ = r at hdirectory ⊢
  generalize y _ = r' at hdirectory ⊢
  cases hdirectory with
  | ok hresult hstate => exact .ok hresult (hall.set decimalText hstate)
  | error hresult hstate => exact .error hresult (hall.set decimalText hstate)

end Scope

/-! ## Documents in the files -/

theorem read_writeJson {o : Object} (ho : membersPrintable o) :
    JsonReader.read decimalText (writeJson o) = .ok (some (rereadMembers decimalText o)) := by
  cases o with
  | nil => rfl
  | cons m o =>
      rw [writeJson, if_neg (List.cons_ne_nil m o)]
      exact read_writeValue_reread decimalText ho

theorem writeJson_ne {o : Object} (ho : membersPrintable o) : writeJson o ≠ "" := by
  cases o with
  | nil => decide
  | cons m o =>
      rw [writeJson, if_neg (List.cons_ne_nil m o)]
      exact writeValue_object_ne ho

theorem readJson_writeJson {o : Object} (ho : membersPrintable o) :
    readJson decimalText (writeJson o) = .ok (rereadMembers decimalText o) := by
  rw [readJson, if_neg (writeJson_ne ho), read_writeJson decimalText ho]

/-- The document that is printed and read is taken for the document. -/
theorem onDocument_run
    {update : Object → String → IndexM Bool} {document : Object} {ouid : String}
    (houid : ouid ≠ "") (hdocument : membersPrintable document)
    (hreread : update (rereadMembers decimalText document) ouid = update document ouid)
    {s : Directory × OpenIndex}
    (hreturns : ∃ b, update document ouid s.2.index = .ok b (after (update document ouid) s.2.index)) :
    ∃ b, onDocument decimalText update document ouid s =
      .ok b (s.1, ⟨after (update document ouid) s.2.index, true⟩) := by
  obtain ⟨b, hb⟩ := hreturns
  have hconfirm : confirm (ouid ≠ "") = .ok () := by simp [houid]
  have hwithin : within (fun s : Directory × OpenIndex => .ok s.2.index)
      (fun index s => (s.1, { s.2 with index := index }))
      (update (rereadMembers decimalText document) ouid) (s.1, ⟨s.2.index, true⟩) =
        .ok b (s.1, ⟨after (update document ouid) s.2.index, true⟩) := by
    rw [hreread]
    exact within_run_iff.2 ⟨_, _, rfl, hb, rfl⟩
  refine ⟨b, ?_⟩
  rw [onDocument, bind_run (lift_run hconfirm s),
    bind_run (lift_run (read_writeJson decimalText hdocument) s)]
  exact (bind_run (write_run _ _)).trans hwithin

section Writes

variable (hdecimal : ∀ digits, ReadsNumber (decimalText digits).toList)
include hdecimal

/-- What is read back can be printed again. -/
theorem membersPrintable_reread {o : Object} (ho : membersPrintable o) :
    membersPrintable (rereadMembers decimalText o) :=
  read_printable decimalText hdecimal (read_writeJson decimalText ho)

section Request

variable {request : WriteRequest} {s : Directory × OpenIndex} {c : Collection}
  (hs : HoldsOpen decimalText s c)
include hs

theorem removeFile_run :
    ∃ opened, removeFile decimalText request s = .ok () (s.1, opened) ∧
      opened.index = c.indexWithout request ∧ RawIndex (c.indexWithout request) := by
  cases hnew : request.isNew with
  | true =>
      refine ⟨s.2, ?_, by simp [Collection.indexWithout, hnew, hs.opened], ?_⟩
      · rw [removeFile, hnew]
        rfl
      · simpa [Collection.indexWithout, hnew] using hs.raw
  | false =>
      have hfile : fetch (fun s : Directory × OpenIndex =>
          (.ok ((lookup request.oid s.1.files).getD "") : Except Failure String)) s =
            .ok (((c.stored request.oid).map writeJson).getD "") s := by
        rw [← hs.files]
        rfl
      rw [removeFile, hnew]
      change ∃ opened, (fetch _ >>= _) s = _ ∧ _
      rw [bind_run hfile]
      cases hstored : c.stored request.oid with
      | none =>
          refine ⟨s.2, rfl, by simp [Collection.indexWithout, hnew, hstored, hs.opened], ?_⟩
          simpa [Collection.indexWithout, hnew, hstored] using hs.raw
      | some old =>
          have hold := hs.printable _ _ hstored
          have hagain := membersPrintable_reread decimalText hdecimal hold
          have hread := readJson_writeJson decimalText hold
          have hsame : removeDocument (rereadMembers decimalText old) request.oid =
              removeDocument old request.oid := removeDocument_reread decimalText old request.oid
          obtain ⟨b, hb⟩ := onDocument_run decimalText request.oid_ne hagain
            (removeDocument_reread decimalText _ request.oid) (s := s)
            (removeDocument_returns _ request.oid_ne s.2.index)
          rw [hsame] at hb
          have hwithout : c.indexWithout request =
              after (removeDocument old request.oid) c.index := by
            simp [Collection.indexWithout, hnew, hstored]
          refine ⟨⟨after (removeDocument old request.oid) s.2.index, true⟩, ?_, ?_, ?_⟩
          · rw [Option.map_some, Option.getD_some, if_pos (writeJson_ne hold),
              bind_run (lift_run hread s), bind_run hb]
            rfl
          · rw [hwithout, hs.opened]
          · rw [hwithout]
            exact (ensures_removeDocument hold request.oid).after hs.raw

/-- A file is replaced as its document is. -/
theorem replaceFile_run
    (hoid : isRawText request.oid.toList = true) (hdocument : membersPrintable request.document) :
    ∃ s', replaceFile decimalText request s = .ok () s' ∧
      HoldsOpen decimalText s' (c.replaced request) := by
  have hremoval : ∃ opened, removeFile decimalText request s = .ok () (s.1, opened) ∧
      opened.index = c.indexWithout request ∧ RawIndex (c.indexWithout request) :=
    removeFile_run decimalText hdecimal hs
  obtain ⟨opened, hremoved, hindex, hraw⟩ := hremoval
  have hread := readJson_writeJson decimalText hdocument
  have hagain := membersPrintable_reread decimalText hdecimal hdocument
  have hsame : addDocument (rereadMembers decimalText request.document) request.oid =
      addDocument request.document request.oid := addDocument_reread decimalText _ _
  obtain ⟨b, hb⟩ := onDocument_run decimalText request.oid_ne hagain
    (addDocument_reread decimalText _ request.oid)
    (s := ({ s.1 with files := set request.oid (writeJson request.document) s.1.files }, opened))
    (addDocument_returns _ request.oid_ne opened.index)
  rw [hsame] at hb
  refine ⟨({ s.1 with files := set request.oid (writeJson request.document) s.1.files },
    ⟨after (addDocument request.document request.oid) opened.index, true⟩), ?_, ?_⟩
  · rw [replaceFile, bind_run hremoved, bind_run (write_run _ _), bind_run (lift_run hread _),
      bind_run hb]
    rfl
  · constructor
    · intro oid
      rw [stored_replaced, Function.update_apply, lookup_set]
      split
      · rfl
      · exact hs.files oid
    · intro oid document hstored
      rw [stored_replaced, Function.update_apply] at hstored
      split at hstored
      · rwa [← Option.some.inj hstored]
      · exact hs.printable oid document hstored
    · exact (ensures_addDocument hoid hdocument).after hraw
    · rw [hindex]
      rfl
    · intro hclean
      cases hclean

end Request

theorem simulates_replaceFile
    {request : WriteRequest} (hoid : isRawText request.oid.toList = true)
    (hdocument : membersPrintable request.document) :
    Simulates (HoldsOpen decimalText) Eq Eq (replaceFile decimalText request)
      (replaceDocument request) := by
  intro s c hs
  obtain ⟨s', hrun, hstate⟩ := replaceFile_run decimalText hdecimal hs hoid hdocument
  rw [hrun, replaceDocument_run]
  exact .ok rfl hstate

end Writes

/-! ## Calls of the provider -/

theorem fetch_checkDuplicate (request : WriteRequest) :
    fetch (checkDuplicate request) =
      tryCatch
        (do
          let filter ← lift (duplicateFilter request.userDocument)
          let existing ← fetch fun c : Collection => findDocumentIDs c.index filter
          if existing ≠ [] then throw (msgDuplicate request))
        keepRuntimeError := by
  funext c
  cases hfilter : duplicateFilter request.userDocument with
  | error e =>
      rw [tryCatch_caught (bind_error (lift_error e c)), fetch, checkDuplicate, hfilter]
      cases e <;> rfl
  | ok filter =>
      have hsearch : (Except.ok filter >>= findDocumentIDs c.index) =
          findDocumentIDs c.index filter := rfl
      rw [fetch, checkDuplicate, hfilter, hsearch]
      cases hfound : findDocumentIDs c.index filter with
      | error e =>
          have hfetch : fetch (fun c : Collection => findDocumentIDs c.index filter) c =
              .error e c := fetch_error hfound
          rw [tryCatch_caught ((bind_run (lift_ok filter c)).trans (bind_error hfetch))]
          cases e <;> rfl
      | ok existing =>
          have hfetch : fetch (fun c : Collection => findDocumentIDs c.index filter) c =
              .ok existing c := fetch_ok hfound
          cases existing with
          | nil =>
              rw [tryCatch_run ((bind_run (lift_ok filter c)).trans (bind_run hfetch))]
              rfl
          | cons oid existing =>
              rw [tryCatch_caught ((bind_run (lift_ok filter c)).trans (bind_run hfetch))]
              rfl

theorem simulates_search (filter : Object) :
    Simulates (HoldsOpen decimalText) Eq Eq
      (fetch fun s => findDocumentIDs s.2.index filter)
      (fetch fun c => findDocumentIDs c.index filter) := by
  refine Simulates.fetch fun s c hs => ?_
  rw [hs.opened]
  exact RelatedValues.refl (fun _ => rfl) _

theorem simulates_keepRuntimeError {σ τ : Type} {R : σ → τ → Prop} (e : Failure) :
    Simulates R Eq Eq (keepRuntimeError e) (keepRuntimeError e) := by
  cases e with
  | runtimeError text => exact Simulates.throw rfl
  | _ => exact Simulates.pure rfl

theorem simulates_checkDuplicateIn (request : WriteRequest) :
    Simulates (Holds decimalText) Eq Eq (checkDuplicateIn decimalText request)
      (fetch (checkDuplicate request)) := by
  have hhandler : ∀ e e' : Failure, e = e' → Simulates (Holds decimalText) Eq Eq
      (keepRuntimeError e) (keepRuntimeError e') := by
    intro e e' heq
    rw [heq]
    exact simulates_keepRuntimeError e'
  rw [fetch_checkDuplicate]
  refine Simulates.tryCatch ?_ hhandler
  refine (Simulates.lift (RelatedValues.refl (fun _ => rfl) _)).bind fun filter filter' heq => ?_
  subst heq
  refine (simulates_withSearchIndex decimalText (simulates_search decimalText filter)).bind
    fun existing existing' heq => ?_
  subst heq
  exact Simulates.ite (Simulates.throw rfl) (Simulates.pure rfl)

theorem simulates_checkInsertIn (request : WriteRequest) :
    Simulates (Holds decimalText) Eq Eq (checkInsertIn decimalText request)
      (fetch (checkInsert request)) := by
  intro d c hd
  have hfile : fetch (fun d : Directory =>
      (.ok (lookup request.oid d.files).isSome : Except Failure Bool)) d =
        .ok (c.stored request.oid).isSome d := by
    rw [← Option.isSome_map, ← hd.files]
    rfl
  cases hnew : request.isNew with
  | false =>
      have hchecked : checkInsert request c = .ok () := by rw [checkInsert, hnew]; rfl
      rw [fetch_ok hchecked, checkInsertIn, hnew]
      exact .ok rfl hd
  | true =>
      rw [checkInsertIn, hnew, if_pos rfl, bind_run hfile]
      cases hstored : (c.stored request.oid).isSome with
      | true =>
          have hchecked : checkInsert request c = .error (msgFileExists request) := by
            rw [checkInsert, if_pos hnew, if_pos hstored]
          rw [fetch_error hchecked]
          exact .error rfl hd
      | false =>
          have hchecked : checkInsert request c = checkDuplicate request c := by
            rw [checkInsert, if_pos hnew, if_neg (by rw [hstored]; decide)]
          have hsame : (fetch (checkInsert request) : InPlace Failure Collection Unit) c =
              fetch (checkDuplicate request) c := by rw [fetch, fetch, hchecked]
          rw [hsame]
          exact simulates_checkDuplicateIn decimalText request d c hd

/-- The names in a call can be printed, and so can what is written. -/
structure RawWrite (env : Environment) (arg : Value) : Prop where
  environment : RawEnvironment env
  printable : arg.Printable
  collection : ∀ request, writeRequest env arg = .ok request →
    isRawText request.collection.toList = true
  oid : ∀ request, writeRequest env arg = .ok request → isRawText request.oid.toList = true

theorem RawWrite.document
    {env : Environment} {arg : Value} (hraw : RawWrite env arg) {request : WriteRequest}
    (hrequest : writeRequest env arg = .ok request) : membersPrintable request.document := by
  obtain ⟨hdocument, -, -, record, hrecord, hprepared⟩ := writeRequest_eq_ok hrequest
  obtain ⟨o, p, rfl, hlookup, hp⟩ := findChildDocument_eq_ok.1 hdocument
  rw [Value.object.injEq] at hp
  rw [← hp] at hlookup
  have huser : membersPrintable request.userDocument := printable_of_lookup hraw.printable hlookup
  rw [hprepared]
  refine membersPrintable_builderEdits (fun p hp => ?_)
    (gives_ovlDatabaseRecord hraw.environment huser record hrecord)
  simp only [List.mem_cons, List.not_mem_nil, or_false] at hp
  rcases hp with rfl | rfl
  · exact ⟨hraw.environment, by decide,
      ⟨by decide, hraw.oid request hrequest, True.intro⟩, True.intro⟩
  · exact ⟨hraw.environment, by decide, hraw.collection request hrequest, True.intro⟩

inductive ProviderCall where
  | write (env : Environment) (arg : Value)
  | read (payload : Value)

inductive ProviderReply where
  | written (id : Value)
  | read (documents : List Object)

def ProviderCall.onFiles : ProviderCall → InPlace Failure Files ProviderReply
  | .write env arg => .written <$> writeDocumentFile decimalText env arg
  | .read payload => .read <$> readDocumentFiles decimalText payload

def ProviderCall.onStore : ProviderCall → InPlace Failure Store ProviderReply
  | .write env arg => .written <$> writeDocument env arg
  | .read payload => .read <$> fetch (readDocuments payload)

def ProviderCall.Raw : ProviderCall → Prop
  | .write env arg => RawWrite env arg
  | .read _ => True

/-- The same id, or the documents as they are read again. -/
def ProviderReply.RereadOf : ProviderReply → ProviderReply → Prop
  | .written id, .written id' => id = id'
  | .read documents, .read documents' => documents = documents'.map (rereadMembers decimalText)
  | _, _ => False

/-- The same exception, but for the text of the one that a missing file raises. -/
def SameFailure (e e' : Failure) : Prop :=
  e = e' ∨ ∃ oid, e = msgMissingFile oid ∧
    e' = .invalidArgument "Failed reading JSON: Empty JSON buffer"

theorem simulates_writeDocumentFile
    (hdecimal : ∀ digits, ReadsNumber (decimalText digits).toList)
    {env : Environment} {arg : Value} (hraw : RawWrite env arg) :
    Simulates (HoldsAll decimalText) Eq Eq (writeDocumentFile decimalText env arg)
      (writeDocument env arg) := by
  cases hrequest : writeRequest env arg with
  | error e =>
      intro files store hall
      rw [writeDocumentFile, writeDocument, hrequest, bind_error (lift_error e files),
        bind_error (lift_error e store)]
      exact .error rfl hall
  | ok request =>
      have hcollection : Simulates (Holds decimalText) Eq Eq
          (writeToDirectory decimalText request) (writeToCollection request) :=
        (simulates_checkInsertIn decimalText request).bind fun _ _ _ =>
          simulates_withSearchIndex decimalText
            (simulates_replaceFile decimalText hdecimal (hraw.oid request hrequest)
              (hraw.document hrequest))
      rw [writeDocumentFile, writeDocument, hrequest]
      intro files store hall
      rw [bind_run (lift_ok request files), bind_run (lift_ok request store)]
      exact (simulates_onDirectory decimalText request.collection hcollection).bind
        (fun _ _ _ => Simulates.pure rfl) files store hall

theorem simulates_readDocumentFile (oid : String) :
    Simulates (HoldsOpen decimalText) (fun o o' => o = rereadMembers decimalText o') SameFailure
      (fetch fun s => readDocumentFile decimalText oid s.1) (fetch fun c => readFile c oid) := by
  refine Simulates.fetch fun s c hs => ?_
  rw [readDocumentFile, readFile, hs.files]
  cases hstored : c.stored oid with
  | none => exact .error (Or.inr ⟨oid, rfl, rfl⟩)
  | some document =>
      have hread := readJson_writeJson decimalText (hs.printable oid document hstored)
      rw [Option.map_some]
      dsimp only
      rw [hread]
      exact .ok rfl

/-- The documents that a search finds, one after the other. -/
def findDocuments (filter : Object) : InPlace Failure Collection (List Object) := do
  let oids ← fetch fun c => findDocumentIDs c.index filter
  oids.mapM fun oid => fetch fun c => readFile c oid

theorem findDocuments_run
    {payload : Value} {name : String} (hname : readCollectionName payload = .ok name)
    (store : Store) :
    findDocuments (writeFilter payload) (collectionAt name store) =
      lift (readDocuments payload store) (collectionAt name store) := by
  have hread : readDocuments payload store =
      findDocumentIDs (collectionAt name store).index (writeFilter payload) >>= fun oids =>
        oids.mapM (readFile (collectionAt name store)) := by
    rw [readDocuments, hname]
    rfl
  rw [hread, findDocuments]
  cases hfound : findDocumentIDs (collectionAt name store).index (writeFilter payload) with
  | error e =>
      have hfetch : fetch (fun c : Collection => findDocumentIDs c.index (writeFilter payload))
          (collectionAt name store) = .error e _ := fetch_error hfound
      rw [bind_error hfetch]
      rfl
  | ok oids =>
      have hfetch : fetch (fun c : Collection => findDocumentIDs c.index (writeFilter payload))
          (collectionAt name store) = .ok oids _ := fetch_ok hfound
      rw [bind_run hfetch, mapM_fetch]
      rfl

theorem simulates_findDocuments (filter : Object) :
    Simulates (HoldsOpen decimalText)
      (fun documents documents' => documents = documents'.map (rereadMembers decimalText))
      SameFailure
      (do
        let oids ← fetch fun s => findDocumentIDs s.2.index filter
        oids.mapM fun oid => fetch fun s => readDocumentFile decimalText oid s.1)
      (findDocuments filter) := by
  have hsearch : Simulates (HoldsOpen decimalText) Eq SameFailure
      (fetch fun s => findDocumentIDs s.2.index filter)
      (fetch fun c => findDocumentIDs c.index filter) :=
    (simulates_search decimalText filter).mono (fun _ _ h => h) fun _ _ h => Or.inl h
  refine hsearch.bind fun oids oids' hsame => ?_
  subst hsame
  have hfiles := Simulates.mapM fun oid (_ : oid ∈ oids) => simulates_readDocumentFile decimalText oid
  refine hfiles.mono (fun documents documents' hall => ?_) fun _ _ h => h
  have heq : List.Forall₂ Eq documents (documents'.map (rereadMembers decimalText)) :=
    List.forall₂_map_right_iff.2 hall
  rwa [List.forall₂_eq_eq_eq] at heq

theorem simulates_readDocumentFiles (payload : Value) :
    Simulates (HoldsAll decimalText)
      (fun documents documents' => documents = documents'.map (rereadMembers decimalText))
      SameFailure (readDocumentFiles decimalText payload) (fetch (readDocuments payload)) := by
  intro files store hall
  cases hname : readCollectionName payload with
  | error e =>
      have hread : readDocuments payload store = .error e := by
        rw [readDocuments, hname]
        rfl
      rw [readDocumentFiles, hname, bind_error (lift_error e files), fetch_error hread]
      exact .error (Or.inl rfl) hall
  | ok name =>
      have hbody := simulates_findDocuments decimalText (writeFilter payload)
      have hresults := simulates_withSearchIndex decimalText hbody _ _ (hall name)
      have hunchanged : ∀ d, Holds decimalText d (collectionAt name store) →
          HoldsAll decimalText (set name d files) store := by
        intro d hd name'
        rw [directoryAt_set]
        split
        · rename_i heq
          rwa [heq]
        · exact hall name'
      rw [findDocuments_run hname] at hresults
      rw [readDocumentFiles, hname, bind_run (lift_ok name files), onDirectory, fetch]
      generalize withSearchIndex decimalText _ (directoryAt name files) = r at hresults ⊢
      cases hread : readDocuments payload store with
      | error e =>
          rw [hread, lift_error] at hresults
          cases hresults with
          | error hresult hstate => exact .error hresult (hunchanged _ hstate)
      | ok documents =>
          rw [hread, lift_ok] at hresults
          cases hresults with
          | ok hresult hstate => exact .ok hresult (hunchanged _ hstate)

end Provider

/-- A document is written, and read by a filter on its version. -/
def filedCalls : List ProviderCall :=
  [.write exampleEnvironment (examplePayload "v1" "e1" []),
    .read (.object
      [("collection", .string "run"), ("filter", .object [("version", .string "v1")])])]

theorem exampleWrite_raw : RawWrite exampleEnvironment (examplePayload "v1" "e1" []) := by
  have hrequest (request : WriteRequest)
      (h : writeRequest exampleEnvironment (examplePayload "v1" "e1" []) = .ok request) :
      exampleRequest exampleEnvironment "v1" "e1" [] = request := exampleRequest_eq h
  refine ⟨exampleEnvironment_raw, ?_, fun request h => ?_, fun request h => ?_⟩
  · simp [examplePayload, Value.Printable, membersPrintable_iff, valuesPrintable_iff]
    decide
  · rw [← hrequest request h]
    decide +kernel
  · rw [← hrequest request h]
    decide +kernel

end ArtdaqDatabase
