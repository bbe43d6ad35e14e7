import ArtdaqDatabase.JsonWriter
import ArtdaqDatabase.InsertUniqueness
import ArtdaqDatabase.StoredIds

/-!
# Data in the format `json`

A JSON object that is written becomes the member `document.data` of its record:
it is wrapped before the record is built, so none of its own members is taken for
a member of the record.  The overlays, the options of the write and the provider
leave the member alone, and a read returns it.
-/

namespace ArtdaqDatabase

open OrderedTable InPlaceUpdate

/-- The member `document` of a record that is made from data alone. -/
def payloadSection (data : Object) : Object :=
  [("data", .object data), ("metadata", .object []), ("search", .array [])]

/-! ## Building the record -/

/-- The overlay of a record overlays its member `document`. -/
theorem document_overlay
    {env : Environment} {o record : Object} (hrecord : ovlDatabaseRecord env o = .ok record) :
    ∃ w, ovlDocument env ((lookup "document" o).getD (.object [])) = .ok w ∧
      lookup "document" record = some w := by
  obtain ⟨w, ⟨v, hinput, hnormalize⟩, hlookup, -⟩ :=
    applySections_result recordSections_nodup hrecord
      (s := ⟨"document", valueDefault (.object []), false, ovlDocument⟩) (by simp [recordSections])
  refine ⟨w, ?_, hlookup⟩
  cases hdocument : lookup "document" o with
  | none =>
      simp only [Section.input, hdocument, valueDefault] at hinput
      cases hinput
      exact hnormalize
  | some u =>
      simp only [Section.input, hdocument] at hinput
      cases hinput
      exact hnormalize

theorem ovlDocument_payloadSection (env : Environment) (data : Object) :
    ovlDocument env (.object (payloadSection data)) = .ok (.object (payloadSection data)) :=
  rfl

theorem ovlDocument_empty (env : Environment) :
    ovlDocument env (.object []) = .ok (.object (payloadSection [])) :=
  rfl

theorem lookup_overlay_none
    {env : Environment} {o record : Object} {k : String}
    (hrecord : ovlDatabaseRecord env o = .ok record) (hk : k ∉ recordSections.map Section.key)
    (habsent : lookup k o = none) : lookup k record = none := by
  rw [(applySections_of_notMem hk hrecord).1, habsent]

theorem document_overlay_payload
    {env : Environment} {data o record : Object} (hrecord : ovlDatabaseRecord env o = .ok record)
    (hdocument : lookup "document" o = some (.object (payloadSection data))) :
    lookup "document" record = some (.object (payloadSection data)) := by
  obtain ⟨w, hw, hlookup⟩ := document_overlay hrecord
  rw [hdocument, Option.getD_some, ovlDocument_payloadSection, Except.ok.injEq] at hw
  rw [hlookup, ← hw]

/-- Wrapped data are imported as they are. -/
theorem importUserData_wrapped
    {data record : Object} {section_ : Object}
    (hdocument : lookup "document" record = some (.object section_)) :
    importUserData [("data", .object data)] record =
      .ok (set "document" (.object (set "data" (.object data) section_)) record) := by
  have hsection : objectAt "document" record = .ok section_ := objectAt_eq_ok.2 hdocument
  simp [importUserData, importChild, findChildValue, lookup, getPayloadValueForKey, count,
    Value.getObject, bind, Except.bind, hsection]

theorem createFromData_wrapped
    {template refresh : Environment} {data record : Object}
    (hrecord : createFromData template refresh [("data", .object data)] = .ok record) :
    lookup "document" record = some (.object (payloadSection data)) ∧
      lookup "payload" record = none := by
  simp only [createFromData, bind_eq_ok] at hrecord
  obtain ⟨empty, hempty, imported, himported, hrefreshed⟩ := hrecord
  obtain ⟨w, hw, hdocument⟩ := document_overlay hempty
  rw [lookup_nil, Option.getD_none, ovlDocument_empty, Except.ok.injEq] at hw
  subst hw
  rw [importUserData_wrapped hdocument, Except.ok.injEq] at himported
  subst himported
  constructor
  · exact document_overlay_payload hrefreshed (lookup_set_self _ _ _)
  · apply lookup_overlay_none hrefreshed (by decide)
    rw [lookup_set_of_ne (by decide)]
    exact lookup_overlay_none hempty (by decide) rfl

theorem createFromData_section
    {template refresh : Environment} {data record : Object}
    (hrecord : createFromData template refresh data = .ok record)
    {s : Section} (hs : s ∈ recordSections) : lookup s.key record ≠ none := by
  simp only [createFromData, bind_eq_ok] at hrecord
  obtain ⟨empty, -, imported, -, hrefreshed⟩ := hrecord
  obtain ⟨w, -, hlookup, -⟩ := applySections_result recordSections_nodup hrefreshed hs
  rw [hlookup]
  simp

/-! ## Writing the record -/

section Write

variable {c : Conversions} {clock : Clock} {options : ManageDocumentOperation} {data : Object}

theorem lookup_applyOptions
    {record record' : Object} (happly : applyOptions clock options record = .ok record')
    {k : String} (hk : k ∉ optionKeys) : lookup k record' = lookup k record := by
  simp only [applyOptions, bind_eq_ok, Except.ok.injEq] at happly
  obtain ⟨frozen, -, rfl⟩ := happly
  split
  · rfl
  · exact lookup_builderEdits_of_untouched (fun p hp => touchedKeys_optionEdits hp hk) record

/-- A record with two members and without a member `payload` is handed over whole. -/
theorem getPayloadValueForKey_whole
    {record : Object} {k k' : String} (hne : k ≠ k') (hk : lookup k record ≠ none)
    (hk' : lookup k' record ≠ none) (habsent : lookup "payload" record = none) (key : String) :
    getPayloadValueForKey key (.object record) = .ok (.object record) := by
  have hcount : count "payload" record ≠ 1 := by
    rw [count_eq_zero_iff.2 habsent]
    omega
  have hobject : Value.getObject (.object record) = .ok record := rfl
  simp only [getPayloadValueForKey, hobject, bind, Except.bind, if_neg hcount]
  split
  · rename_i m v
    by_cases hm : m = k
    · subst hm
      simp [lookup, hne] at hk'
    · simp [lookup, hm] at hk
  · rfl

/-- The payload of a write holds the data under its member `document`. -/
theorem writePayload_json
    {payload : Value} {text : Text} (hformat : options.format = .json)
    (hpayload : writePayload c clock options (.json (.object data)) = .ok (payload, text)) :
    ∃ record, findChildDocument "document" payload = .ok (.object record) ∧
      lookup "document" record = some (.object (payloadSection data)) := by
  simp only [writePayload, bind_eq_ok] at hpayload
  obtain ⟨u, -, hpayload⟩ := hpayload
  rw [if_neg (by simp)] at hpayload
  simp only [bind_eq_ok, draftDocument, hformat, wrapData, draftFromData, Except.ok.injEq]
    at hpayload
  obtain ⟨draft, ⟨wrapped, rfl, built, hbuilt, rfl⟩, record, hrecord, filled, hfilled, hpair⟩ :=
    hpayload
  rw [Prod.mk.injEq] at hpair
  obtain ⟨rfl, -⟩ := hpair
  obtain ⟨hdocument, habsent⟩ := createFromData_wrapped hbuilt
  have hcomments := createFromData_section hbuilt
    (s := ⟨"comments", valueDefault (.array []), false, ovlFixedList ovlKeyValue⟩)
    (by simp [recordSections])
  have hdocument' : lookup "document" record = some (.object (payloadSection data)) := by
    rw [lookup_applyOptions hrecord (by decide), hdocument]
  have hne : "document" ≠ "comments" := by decide
  have hwhole := getPayloadValueForKey_whole hne
    (by rw [hdocument']; simp) (by rw [lookup_applyOptions hrecord (by decide)]; exact hcomments)
    (by rw [lookup_applyOptions hrecord (by decide), habsent]) "document"
  simp only [insertPayload, hwhole, bind, Except.bind, Except.ok.injEq] at hfilled
  subst hfilled
  exact ⟨record, findChildDocument_eq_ok.2 ⟨_, record, rfl, rfl, rfl⟩, hdocument'⟩

/-- What a write files under an id, and that it files nothing else. -/
theorem documentAt_writeDocument
    {env : Environment} {arg id : Value} {store store' : Store}
    (hwrite : writeDocument env arg store = .ok id store') :
    ∃ request, writeRequest env arg = .ok request ∧
      ∀ name oid, documentAt store' name oid =
        if name = request.collection ∧ oid = request.oid then some request.document
        else documentAt store name oid := by
  rw [writeDocument, bind_run_iff] at hwrite
  obtain ⟨request, unchanged, hrequest, hwrite⟩ := hwrite
  rw [lift_run_iff] at hrequest
  obtain ⟨hrequest, rfl⟩ := hrequest
  refine ⟨request, hrequest, fun name oid => ?_⟩
  cases hcheck : checkInsert request (collectionAt request.collection store) with
  | ok u =>
      have hrun := writeDocument_run hrequest hcheck
      have hstep : store' = writeStep store (env, arg) := by
        rw [writeDocument, bind_run (lift_run hrequest store), hwrite] at hrun
        rw [writeStep, after, writeDocument, bind_run (lift_run hrequest store), hwrite]
      rw [hstep, documentAt_writeStep hrequest]
      simp only [hcheck, and_true]
  | error e =>
      have hrefused := writeDocument_refused hrequest hcheck
      rw [writeDocument, bind_run (lift_run hrequest store), hwrite] at hrefused
      cases hrefused

/-- The document of a write holds the data as they are. -/
theorem document_writeRequest
    {env : Environment} {payload : Value} {record : Object} {request : WriteRequest}
    (hrequest : writeRequest env payload = .ok request)
    (hpayload : findChildDocument "document" payload = .ok (.object record))
    (hdocument : lookup "document" record = some (.object (payloadSection data))) :
    lookup "document" request.document = some (.object (payloadSection data)) := by
  obtain ⟨huser, -, -, filed, hfiled, hrecord⟩ := writeRequest_eq_ok hrequest
  rw [hpayload, Except.ok.injEq, Value.object.injEq] at huser
  rw [hrecord, lookup_recordToWrite (by decide)]
  rw [← huser] at hfiled
  exact document_overlay_payload hfiled hdocument

end Write

/-! ## Reading -/

theorem readDocument_payload
    {c : Conversions} {options : ManageDocumentOperation} {store : Store} {document data : Object}
    (hne : data ≠ []) (hload : options.operation = "load") (hformat : options.format = .json)
    (hselect : selectDocument options store = .ok document)
    (hdocument : lookup "document" document = some (.object (payloadSection data))) :
    detail.readDocument c options store = .ok (.json (.object data)) := by
  have hconfirm : confirm (options.operation = "load") = .ok () := by simp [hload]
  have hknown : confirm (options.format ≠ .unknown) = .ok () := by simp [hformat]
  have hsection : objectAt "document" document = .ok (payloadSection data) :=
    objectAt_eq_ok.2 hdocument
  have hdata : objectAt "data" (payloadSection data) = .ok data := objectAt_eq_ok.2 rfl
  rw [detail.readDocument, hconfirm, hselect, hknown, hformat]
  simp [renderDocument, hsection, hdata, JsonWriter.write_ok hne, bind, Except.bind]

/-- Whatever the members of the data are called, a read that selects the document of
a write returns the data, in a text that is parsed to the same tree. -/
theorem readDocument_written
    (decimalText : List Char → String) {c : Conversions} {clock : Clock}
    {options : ManageDocumentOperation} {conf : Object} {store store' : Store} {text : Text}
    (hne : conf ≠ []) (hconf : membersReadable conf) (hformat : options.format = .json)
    (hwrite : detail.writeDocument c clock options (.json (.object conf)) store =
      .ok text store') :
    ∃ name oid document, documentAt store' name oid = some document ∧
      (∀ name' oid', (name', oid') ≠ (name, oid) →
        documentAt store' name' oid' = documentAt store name' oid') ∧
      ∀ (readOptions : ManageDocumentOperation) (later : Store),
        readOptions.operation = "load" → readOptions.format = .json →
        selectDocument readOptions later = .ok document →
        detail.readDocument c readOptions later = .ok (.json (.object conf)) ∧
          (JsonWriter.write conf >>= JsonReader.read decimalText) = .ok (some conf) := by
  rw [detail.writeDocument, bind_run_iff] at hwrite
  obtain ⟨⟨payload, returned⟩, unchanged, hpayload, hwrite⟩ := hwrite
  rw [lift_run_iff] at hpayload
  obtain ⟨hpayload, rfl⟩ := hpayload
  rw [bind_run_iff] at hwrite
  obtain ⟨id, after', hwrite, hreturn⟩ := hwrite
  cases hreturn
  obtain ⟨request, hrequest, hstored⟩ := documentAt_writeDocument hwrite
  obtain ⟨record, hrecord, hdocument⟩ := writePayload_json hformat hpayload
  have hfiled := document_writeRequest hrequest hrecord hdocument
  refine ⟨request.collection, request.oid, request.document, ?_, fun name' oid' hother => ?_,
    fun readOptions later hload hjson hselect => ⟨?_, ?_⟩⟩
  · rw [hstored, if_pos ⟨rfl, rfl⟩]
  · rw [hstored, if_neg]
    rintro ⟨rfl, rfl⟩
    exact hother rfl
  · exact readDocument_payload hne hload hjson hselect hfiled
  · rw [JsonWriter.write_ok hne]
    exact read_writeValue decimalText hconf

/-- Data with the names of the record's own members. -/
def structuralData : Object :=
  [("payload", .object [("document", .integer 1)]),
    ("document", .object [("data", .object [("metadata", .boolean true)])])]

def jsonOptions : ManageDocumentOperation :=
  { exampleOptions "store" with format := .json }

theorem readDocument_written_structuralData :
    ∃ text store' name oid document,
      detail.writeDocument noConversions exampleClock jsonOptions
          (.json (.object structuralData)) [] = .ok text store' ∧
        documentAt store' name oid = some document ∧
        ∀ (readOptions : ManageDocumentOperation) (later : Store),
          readOptions.operation = "load" → readOptions.format = .json →
          selectDocument readOptions later = .ok document →
          detail.readDocument noConversions readOptions later =
              .ok (.json (.object structuralData)) ∧
            (JsonWriter.write structuralData >>= JsonReader.read String.ofList) =
              .ok (some structuralData) := by
  have hreturns :
      ((detail.writeDocument noConversions exampleClock jsonOptions
        (.json (.object structuralData))).run' []).isSome = true := by
    decide +kernel
  have hraw : membersReadable structuralData := by
    simp only [structuralData, membersReadable, Value.Readable]
    decide
  cases hwrite : detail.writeDocument noConversions exampleClock jsonOptions
      (.json (.object structuralData)) [] with
  | ok text store' =>
      obtain ⟨name, oid, document, hstored, -, hread⟩ :=
        readDocument_written String.ofList (by decide) hraw rfl hwrite
      exact ⟨text, store', name, oid, document, rfl, hstored, hread⟩
  | error e store' =>
      delta EStateM.run' EStateM.run at hreturns
      rw [hwrite] at hreturns
      cases hreturns

end ArtdaqDatabase
