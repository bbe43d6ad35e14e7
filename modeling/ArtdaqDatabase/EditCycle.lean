import ArtdaqDatabase.GuiDocument

/-!
# A cycle through the editor

`json_db_to_gui` and `json_gui_to_db` on the texts of whole documents.  What is
written in between is read again, so the trees on both sides are related by the
writer and the reader.
-/

namespace ArtdaqDatabase

open OrderedTable

/-! ## Trees that are written and read -/

/-- A member is read again under its key. -/
theorem lookup_reread
    {o reread : Object} (h : membersRereadAs o reread) {key : String} {v : Value}
    (hlookup : lookup key o = some v) : ∃ w, lookup key reread = some w ∧ v.RereadAs w := by
  induction o generalizing reread with
  | nil => cases hlookup
  | cons m o ih =>
      obtain ⟨name, u⟩ := m
      cases reread with
      | nil => exact h.elim
      | cons n reread =>
          obtain ⟨name', w⟩ := n
          obtain ⟨rfl, hu, hrest⟩ := h
          rw [lookup] at hlookup ⊢
          split
          · rename_i hname
            rw [if_pos hname, Option.some.injEq] at hlookup
            exact ⟨w, rfl, hlookup ▸ hu⟩
          · rename_i hname
            rw [if_neg hname] at hlookup
            exact ih hrest hlookup

theorem lookup_reread_object
    {o reread p : Object} (h : membersRereadAs o reread) {key : String}
    (hlookup : lookup key o = some (.object p)) :
    ∃ p', lookup key reread = some (.object p') ∧ membersRereadAs p p' := by
  have ⟨w, hw, hreread⟩ := lookup_reread h hlookup
  cases w with
  | object p' => exact ⟨p', hw, hreread⟩
  | _ => exact hreread.elim

/-- A part without decimals is read as it was. -/
theorem lookup_reread_readable
    {o reread : Object} (h : membersRereadAs o reread) {key : String} {v : Value}
    (hlookup : lookup key o = some v) (hv : v.Readable) : lookup key reread = some v := by
  have ⟨w, hw, hreread⟩ := lookup_reread h hlookup
  rw [hw, Value.Readable.reread hv hreread]

mutual

/-- The data of a tree are made of strings. -/
theorem readable_dataOf
    (opts : ExtraOpts) (v : ExtendedValue) (h : (dataOf opts v).Printable) :
    (dataOf opts v).Readable := by
  cases v with
  | scalar tag rawValue info => exact h
  | sequence values info => exact readable_elementsData opts values h
  | table members info => exact readable_membersData opts members h

theorem readable_elementsData
    (opts : ExtraOpts) (values : List ExtendedValue)
    (h : valuesPrintable (elementsData opts values)) : valuesReadable (elementsData opts values) := by
  cases values with
  | nil => trivial
  | cons v values => exact ⟨readable_dataOf opts v h.1, readable_elementsData opts values h.2⟩

theorem readable_membersData
    (opts : ExtraOpts) (members : List (String × ExtendedValue))
    (h : membersPrintable (membersData opts members)) :
    membersReadable (membersData opts members) := by
  cases members with
  | nil => trivial
  | cons member members =>
      obtain ⟨key, v⟩ := member
      rw [membersData] at h ⊢
      split
      · rename_i hselects
        rw [if_pos hselects] at h
        exact ⟨h.1, readable_dataOf opts v h.2.1, readable_membersData opts members h.2.2⟩
      · rename_i hselects
        rw [if_neg hselects] at h
        exact readable_membersData opts members h

end

theorem readable_of_inImage
    {data metadata : Object} (h : InImage data metadata) (hdata : membersPrintable data) :
    membersReadable data := by
  cases h with
  | sections hnodup hlegal h =>
      obtain ⟨rfl, rfl⟩ := data_of_sections hlegal h
      obtain ⟨hprolog, hprologData, hmain, hmainData, -⟩ := hdata
      exact ⟨hprolog, readable_membersData .prologMode _ hprologData, hmain,
        readable_membersData .defaultMode _ hmainData, trivial⟩
  | @tree comments opts key v data metadata hv h =>
      have hpair := fcl2jsondb_eq_ok hv h
      simp only [splitPair, Prod.mk.injEq, Value.object.injEq, true_and] at hpair
      have hreadable : (dataOf opts v).Printable → (dataOf opts v).Readable := readable_dataOf opts v
      rw [← hpair.1] at hreadable
      exact hreadable hdata

/-! ## One conversion -/

/-- The data of a document. -/
def documentData (ast : Object) : Except Failure Object :=
  objectAt "document" ast >>= objectAt "data"

def documentMetadata (ast : Object) : Except Failure Object :=
  objectAt "document" ast >>= objectAt "metadata"

section

variable {ast document data metadata : Object}

theorem documentData_eq_ok :
    documentData ast = .ok data ↔ ∃ document, lookup "document" ast = some (.object document) ∧
      lookup "data" document = some (.object data) := by
  simp [documentData, bind_eq_ok]

theorem documentMetadata_eq_ok :
    documentMetadata ast = .ok metadata ↔
      ∃ document, lookup "document" ast = some (.object document) ∧
        lookup "metadata" document = some (.object metadata) := by
  simp [documentMetadata, bind_eq_ok]

/-- The changelog goes along, when there is one. -/
def withChangelog (source target : Object) : Object :=
  match stringAt "changelog" source with
  | .ok changelog => set "changelog" (.string changelog) target
  | .error _ => target

theorem lookup_withChangelog (source target : Object) {key : String} (hkey : key ≠ "changelog") :
    lookup key (withChangelog source target) = lookup key target := by
  unfold withChangelog
  split
  · exact lookup_set_of_ne hkey _ _
  · rfl

theorem printable_withChangelog
    {source target : Object} (hsource : membersPrintable source) (htarget : membersPrintable target) :
    membersPrintable (withChangelog source target) := by
  unfold withChangelog
  split
  · rename_i changelog hchangelog
    exact membersPrintable_set htarget (by decide)
      (printable_of_lookup hsource (stringAt_eq_ok.1 hchangelog))
  · exact htarget

theorem guiDocument_eq
    (hdocument : lookup "document" ast = some (.object document))
    (hdata : lookup "data" document = some (.object data))
    (hmetadata : lookup "metadata" document = some (.object metadata)) :
    guiDocument ast = (fun children =>
      set "document" (.object (set "converted"
        (.object (withChangelog ast [("guidata", .array children)])) document)) ast) <$>
        db2guiMembers (some metadata) data := by
  simp only [guiDocument, objectAt_eq_ok.2 hdocument, objectAt_eq_ok.2 hdata,
    objectAt_eq_ok.2 hmetadata, bind, Except.bind]
  cases db2guiMembers (some metadata) data with
  | error failure => rfl
  | ok children => rfl

theorem dbDocument_eq
    {converted : Object} {guiNodes : List Value} {filled : DbNodes} {old oldMetadata : Object}
    (hdocument : lookup "document" ast = some (.object document))
    (hconverted : lookup "converted" document = some (.object converted))
    (hnodes : lookup "guidata" converted = some (.array guiNodes))
    (hdata : lookup "data" document = some (.object old))
    (hmetadata : lookup "metadata" document = some (.object oldMetadata))
    (hfilled : gui2db guiNodes ⟨.object [], []⟩ = .ok filled) :
    dbDocument ast = .ok (set "document" (.object (set "converted" (.object [])
      (set "metadata" (.object filled.metadata) (set "data" filled.data document))))
      (withChangelog converted ast)) := by
  have hmetadata' : lookup "metadata" (set "data" filled.data document) =
      some (.object oldMetadata) := by
    rw [lookup_set_of_ne (by decide), hmetadata]
  simp only [dbDocument, objectAt_eq_ok.2 hdocument, objectAt_eq_ok.2 hconverted,
    arrayAt_eq_ok.2 hnodes, hfilled, objectAt_eq_ok.2 hdata, objectAt_eq_ok.2 hmetadata', bind,
    Except.bind]
  rfl

end

theorem printable_converted
    {ast document converted : Object} (hast : membersPrintable ast)
    (hdocument : membersPrintable document) (hconverted : membersPrintable converted) :
    membersPrintable
      (set "document" (.object (set "converted" (.object converted) document)) ast) := by
  have hmember : (Value.object converted).Printable := hconverted
  have hset := membersPrintable_set hdocument (by decide : isRawText "converted".toList = true)
    hmember
  have hobject : (Value.object (set "converted" (.object converted) document)).Printable := hset
  exact membersPrintable_set hast (by decide) hobject

theorem printable_filled
    {document data metadata : Object} (hdocument : membersPrintable document)
    (hdata : membersReadable data) (hmetadata : membersReadable metadata) :
    membersPrintable (set "metadata" (.object metadata) (set "data" (.object data) document)) := by
  have hfirst : (Value.object data).Printable := printable_of_membersReadable data hdata
  have hsecond : (Value.object metadata).Printable :=
    printable_of_membersReadable metadata hmetadata
  exact membersPrintable_set (membersPrintable_set hdocument (by decide) hfirst) (by decide) hsecond

/-! ## The whole cycle -/

section

variable {decimalText : List Char → String}

/-- What is written can be read. -/
theorem write_read
    (decimalText : List Char → String) {ast : Object} (hast : membersPrintable ast)
    (hne : ast ≠ []) :
    ∃ text reread, JsonWriter.write ast = .ok text ∧
      JsonReader.read decimalText text = .ok (some reread) ∧ membersRereadAs ast reread := by
  have ⟨reread, hreread, hread⟩ := reread_writeValue decimalText hast
  exact ⟨_, reread, JsonWriter.write_ok hne, hread, hreread⟩

theorem text_ne_of_read {text : String} {ast : Object}
    (hread : JsonReader.read decimalText text = .ok (some ast)) : text ≠ "" := by
  rintro rfl
  cases hread

variable {dbJson : String} {dbAst document data metadata : Object}

theorem jsonDbToGui_eq
    (hread : JsonReader.read decimalText dbJson = .ok (some dbAst)) :
    jsonDbToGui decimalText dbJson = guiDocument dbAst >>= JsonWriter.write := by
  have hconfirm : confirm (dbJson ≠ "") = .ok () := by simp [text_ne_of_read hread]
  rw [jsonDbToGui, hconfirm]
  simp only [bind, Except.bind, hread]

theorem jsonGuiToDb_eq
    {guiJson : String} {guiAst : Object}
    (hread : JsonReader.read decimalText guiJson = .ok (some guiAst)) :
    jsonGuiToDb decimalText guiJson = dbDocument guiAst >>= JsonWriter.write := by
  have hconfirm : confirm (guiJson ≠ "") = .ok () := by simp [text_ne_of_read hread]
  rw [jsonGuiToDb, hconfirm]
  simp only [bind, Except.bind, hread]

/-- Data that are restored from the editor are those of the text that comes back. -/
theorem edit_cycle
    (hdecimal : ∀ digits, ReadsNumber (decimalText digits).toList)
    (hread : JsonReader.read decimalText dbJson = .ok (some dbAst))
    (hdocument : lookup "document" dbAst = some (.object document))
    (hdata : lookup "data" document = some (.object data))
    (hmetadata : lookup "metadata" document = some (.object metadata))
    (hreadable : membersReadable data)
    {children : List Value} {nodes : Object} (hrestored : Restored data metadata children nodes) :
    ∃ guiJson dbJson' dbAst', jsonDbToGui decimalText dbJson = .ok guiJson ∧
      jsonGuiToDb decimalText guiJson = .ok dbJson' ∧
      JsonReader.read decimalText dbJson' = .ok (some dbAst') ∧
      documentData dbAst' = .ok data ∧ documentMetadata dbAst' = .ok nodes := by
  have ⟨hchildren, hnodes⟩ := hrestored.readable hreadable
  have hprintable := read_printable decimalText hdecimal hread
  have hdocumentPrintable : membersPrintable document := printable_of_lookup hprintable hdocument
  -- to the editor
  have hguidata : membersPrintable [("guidata", .array children)] :=
    ⟨by decide, printable_of_valuesReadable children hchildren, trivial⟩
  have hconverted := printable_withChangelog hprintable hguidata
  obtain ⟨guiJson, guiAst, hwrite, hreadGui, hreread⟩ := write_read decimalText
    (printable_converted hprintable hdocumentPrintable hconverted) (set_ne_nil _ _ _)
  have hgui : jsonDbToGui decimalText dbJson = .ok guiJson := by
    rw [jsonDbToGui_eq hread, guiDocument_eq hdocument hdata hmetadata, hrestored.gui]
    exact hwrite
  -- what is found there
  obtain ⟨document', hdocument', hrereadDocument⟩ :=
    lookup_reread_object hreread (lookup_set_self "document" _ dbAst)
  obtain ⟨converted', hconverted', hrereadConverted⟩ :=
    lookup_reread_object hrereadDocument (lookup_set_self "converted" _ document)
  have hguidata' : lookup "guidata" converted' = some (.array children) := by
    apply lookup_reread_readable hrereadConverted _ (show (Value.array children).Readable from hchildren)
    rw [lookup_withChangelog _ _ (by decide)]
    rfl
  have hdata' : lookup "data" document' = some (.object data) :=
    lookup_reread_readable hrereadDocument
      ((lookup_set_of_ne (by decide) _ _).trans hdata) hreadable
  obtain ⟨metadata', hmetadata', -⟩ := lookup_reread_object hrereadDocument
    ((lookup_set_of_ne (by decide) _ _).trans hmetadata)
  -- and back
  have hprintable' := read_printable decimalText hdecimal hreadGui
  have hdocumentPrintable' : membersPrintable document' := printable_of_lookup hprintable' hdocument'
  have hdb := dbDocument_eq hdocument' hconverted' hguidata' hdata' hmetadata' hrestored.back
  have hfilled := printable_filled hdocumentPrintable' hreadable hnodes
  have hempty : membersPrintable [] := trivial
  obtain ⟨dbJson', dbAst', hwrite', hreadDb, hreread'⟩ := write_read decimalText
    (printable_converted (printable_withChangelog
      (printable_of_lookup hdocumentPrintable' hconverted') hprintable') hfilled hempty)
    (set_ne_nil _ _ _)
  obtain ⟨document'', hdocument'', hrereadDocument'⟩ :=
    lookup_reread_object hreread' (lookup_set_self "document" _ _)
  refine ⟨guiJson, dbJson', dbAst', hgui, ?_, hreadDb, ?_, ?_⟩
  · rw [jsonGuiToDb_eq hreadGui, hdb]
    exact hwrite'
  · apply documentData_eq_ok.2
    refine ⟨document'', hdocument'', lookup_reread_readable hrereadDocument' ?_ hreadable⟩
    rw [lookup_set_of_ne (by decide), lookup_set_of_ne (by decide), lookup_set_self]
  · apply documentMetadata_eq_ok.2
    refine ⟨document'', hdocument'', lookup_reread_readable hrereadDocument' ?_ hnodes⟩
    rw [lookup_set_of_ne (by decide), lookup_set_self]

theorem mentions_of_jsonDbToGui
    (hread : JsonReader.read decimalText dbJson = .ok (some dbAst))
    (hdocument : lookup "document" dbAst = some (.object document))
    (hdata : lookup "data" document = some (.object data))
    (hmetadata : lookup "metadata" document = some (.object metadata))
    (himage : InImage data metadata) {guiJson : String}
    (hgui : jsonDbToGui decimalText dbJson = .ok guiJson) :
    membersMention "children" data = false := by
  by_contra hmentions
  rw [Bool.not_eq_false] at hmentions
  rw [jsonDbToGui_eq hread, guiDocument_eq hdocument hdata hmetadata] at hgui
  cases hchildren : db2guiMembers (some metadata) data with
  | error failure =>
      rw [hchildren] at hgui
      cases hgui
  | ok children => exact db2guiMembers_inImage himage hmentions children hchildren

end

/-- A document with the data and the metadata of a parsed table. -/
def exampleDocumentAst (fhiclTable : List (String × ExtendedValue)) : Object :=
  match readData [(1, "# first")] fhiclTable with
  | .ok object => [("document", .object object)]
  | .error _ => []

def exampleDocumentText (fhiclTable : List (String × ExtendedValue)) : String :=
  writeValue (.object (exampleDocumentAst fhiclTable))

/-- `s: [ 1, { a: x } ]` in front of a prolog parameter. -/
def exampleTable : List (String × ExtendedValue) :=
  [("s", .sequence [.scalar .number "1" ⟨false, .none, Nat.succPNat 0⟩,
      .table [("a", .scalar .string "x" ⟨false, .none, Nat.succPNat 1⟩)]
        ⟨false, .none, Nat.succPNat 1⟩] ⟨false, .none, Nat.succPNat 0⟩),
    ("p", .scalar .string "\"q\"" ⟨true, .protectError, Nat.succPNat 2⟩)]

theorem read_exampleDocument :
    JsonReader.read (fun _ => "1.5") (exampleDocumentText exampleTable) =
      .ok (some (exampleDocumentAst exampleTable)) := by
  apply read_writeValue
  decide +kernel

/-- `children: 1`. -/
def childrenTable : List (String × ExtendedValue) :=
  [("children", .scalar .number "1" ⟨false, .none, Nat.succPNat 0⟩)]

end ArtdaqDatabase
