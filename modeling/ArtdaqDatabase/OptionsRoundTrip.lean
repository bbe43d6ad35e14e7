import ArtdaqDatabase.OperationOptions

/-!
# Options that come back from JSON

Options are restored from their JSON text when every text has the form that the reader
produces and the search filter, where it names an option, names the one that is set.
-/

namespace ArtdaqDatabase

open OrderedTable

namespace Options

/-! ## Texts -/

/-- The texts are raw. -/
def ManageDocumentOperation.TextsRaw (options : ManageDocumentOperation) : Prop :=
  ∀ option ∈ options.texts, isRawText option.text.toList = true

theorem textsRaw_iff {options : ManageDocumentOperation} :
    options.TextsRaw ↔
      isRawText options.operation.text.toList = true ∧
      isRawText options.collection.text.toList = true ∧
      isRawText options.version.text.toList = true ∧
      isRawText options.entity.text.toList = true ∧
      isRawText options.run.text.toList = true ∧
      isRawText options.configuration.text.toList = true ∧
      isRawText options.sourceFileName.text.toList = true := by
  simp [ManageDocumentOperation.TextsRaw, ManageDocumentOperation.texts]

/-- What is read is raw where what was there is raw. -/
theorem raw_fromFilter
    (d : DecimalFormat) {key : String} {ast : Object} {option : OptionText} (hast : d.Prints ast)
    (hoption : isRawText option.text.toList = true) :
    isRawText (fromFilter key ast option).text.toList = true := by
  unfold fromFilter
  split
  · rename_i text htext
    split
    · exact hoption
    · exact d.raw_of_stringAt hast htext
  · exact hoption

theorem ok_bind {ε α β : Type} (a : α) (f : α → Except ε β) :
    (Except.ok a >>= f : Except ε β) = f a := rfl

theorem readOrThrow_eq_ok {d : DecimalFormat} {text message : String} {ast : Object} :
    readOrThrow d text message = .ok ast ↔ d.read text = .ok (some ast) := by
  unfold readOrThrow
  rw [bind_eq_ok]
  constructor
  · rintro ⟨result, hresult, h⟩
    cases result with
    | none => cases h
    | some other =>
        cases h
        exact hresult
  · intro h
    exact ⟨some ast, h, rfl⟩

/-- Only the query filter is taken from the filter at first. -/
theorem filterFrom_eq (d : DecimalFormat) (ast : Object) (options : ManageDocumentOperation) :
    ∃ queryFilter, filterFrom d ast options = { options with queryFilter := queryFilter } := by
  unfold filterFrom
  dsimp only
  split
  · rename_i updated h
    rw [bind_eq_ok] at h
    obtain ⟨filterObject, -, h⟩ := h
    split at h
    · cases h
      exact ⟨options.queryFilter, rfl⟩
    · rw [bind_eq_ok] at h
      obtain ⟨filterString, -, h⟩ := h
      unfold ManageDocumentOperation.setQueryFilter at h
      rw [bind_eq_ok] at h
      obtain ⟨u, -, h⟩ := h
      cases h
      exact ⟨dequote filterString, rfl⟩
  · exact ⟨options.queryFilter, rfl⟩

/-- A text that is no JSON is refused, whatever it says. -/
theorem read_notprovided (d : DecimalFormat) : d.read "notprovided" = .ok none := rfl

theorem readJsonData_eq_ok
    {d : DecimalFormat} {data : String} {options read : ManageDocumentOperation} :
    options.readJsonData d data = .ok read ↔
      ∃ ast, d.read data = .ok (some ast) ∧
        (options.baseReadMembers d ast).readMembers ast = read := by
  unfold ManageDocumentOperation.readJsonData ManageDocumentOperation.baseReadJsonData
  constructor
  · intro h
    simp only [bind_eq_ok, readOrThrow_eq_ok, pure, Except.pure, Except.ok.injEq] at h
    obtain ⟨_, _, base, ⟨_, _, _, _, ast, hast, rfl⟩, other, hother, rfl⟩ := h
    rw [hast, Except.ok.injEq, Option.some.injEq] at hother
    exact ⟨ast, hast, by rw [hother]⟩
  · rintro ⟨ast, hast, rfl⟩
    have hempty : data ≠ "" := by
      rintro rfl
      cases hast
    have hnotprovided : data ≠ "notprovided" := by
      rintro rfl
      rw [read_notprovided] at hast
      cases hast
    rw [decide_eq_true hempty, decide_eq_true hnotprovided, readOrThrow_eq_ok.2 hast,
      readOrThrow_eq_ok.2 hast]
    rfl

/-- The texts of options that were read are raw. -/
theorem textsRaw_of_readJsonData
    {d : DecimalFormat} {data : String} {options : ManageDocumentOperation}
    (h : ManageDocumentOperation.readJsonData d data {} = .ok options) : options.TextsRaw := by
  obtain ⟨ast, hast, rfl⟩ := readJsonData_eq_ok.1 h
  have hprints := d.prints_of_read hast
  have hnotprovided : isRawText notprovided.text.toList = true := by decide
  have hload : isRawText readdocument.text.toList = true := by decide
  have hoption : ∀ key, isRawText (fromFilter key ast notprovided).text.toList = true :=
    fun key => raw_fromFilter d hprints hnotprovided
  obtain ⟨queryFilter, hbase⟩ := filterFrom_eq d ast
    { operation := fromFilter "operation" ast readdocument
      format := formatFrom ast .unknown
      collection := fromFilter "collection" ast notprovided }
  rw [textsRaw_iff, ManageDocumentOperation.baseReadMembers, hbase]
  unfold ManageDocumentOperation.readMembers
  split
  · rename_i filter hfilter
    have hover : ∀ key option, isRawText option.text.toList = true →
        isRawText (fromFilter key filter option).text.toList = true :=
      fun key option => raw_fromFilter d (d.prints_of_objectAt hprints hfilter)
    exact ⟨raw_fromFilter d hprints hload, hoption _, hover _ _ (hoption _), hover _ _ (hoption _),
      hover _ _ (hoption _), hover _ _ (hoption _), hoption _⟩
  · exact ⟨raw_fromFilter d hprints hload, hoption _, hoption _, hoption _, hoption _, hoption _,
      hoption _⟩

/-! ## Members that are written -/

theorem lookup_putProvided (key key' : String) (option : OptionText) (ast : Object) :
    lookup key (putProvided key' option ast) =
      if key' = key ∧ option ≠ notprovided then some (.string option.text) else lookup key ast := by
  unfold putProvided
  by_cases hoption : option = notprovided
  · simp [hoption]
  · rw [if_neg hoption, lookup_set]
    simp [hoption, eq_comm]

theorem prints_putProvided
    {d : DecimalFormat} {option : OptionText} {ast : Object} (hast : d.Prints ast) (key : String)
    (hkey : isRawText key.toList = true) (hoption : isRawText option.text.toList = true) :
    d.Prints (putProvided key option ast) := by
  unfold putProvided
  split
  · exact hast
  · exact hast.set key _ hkey hoption

theorem reread_putProvided
    (d : DecimalFormat) (key : String) (option : OptionText) (ast : Object) :
    d.rereadObject (putProvided key option ast) = putProvided key option (d.rereadObject ast) := by
  unfold putProvided
  split
  · rfl
  · exact d.rereadObject_set rfl ast

theorem reread_criteria
    (d : DecimalFormat) (options : ManageDocumentOperation) (ast : Object) :
    d.rereadObject (options.criteria ast) = options.criteria (d.rereadObject ast) := by
  unfold ManageDocumentOperation.criteria
  dsimp only
  split <;> simp only [reread_putProvided]

theorem reread_addMembers
    (d : DecimalFormat) (options : ManageDocumentOperation) (ast : Object) :
    d.rereadObject (options.addMembers ast) = options.addMembers (d.rereadObject ast) := by
  simp only [ManageDocumentOperation.addMembers, reread_putProvided]

theorem reread_baseMembers
    (d : DecimalFormat) (options : ManageDocumentOperation) (filter : Object)
    (format : DataFormat) :
    d.rereadObject (options.baseMembers filter format) =
      options.baseMembers (d.rereadObject filter) format := by
  rfl

theorem prints_nil (d : DecimalFormat) : d.Prints [] := trivial

theorem prints_criteria
    (d : DecimalFormat) {options : ManageDocumentOperation} (hraw : options.TextsRaw) :
    d.Prints (options.criteria []) := by
  have ⟨_, _, hversion, hentity, _, hconfiguration, _⟩ := textsRaw_iff.1 hraw
  have hversions := prints_putProvided (prints_nil d) "version" (by decide) hversion
  have hentities := prints_putProvided hversions "entities.name" (by decide) hentity
  unfold ManageDocumentOperation.criteria
  dsimp only
  split
  · exact hentities
  · exact prints_putProvided hentities _ (by decide) hconfiguration

theorem prints_baseMembers
    (d : DecimalFormat) {options : ManageDocumentOperation} (hraw : options.TextsRaw)
    {filter : Object} (hfilter : d.Prints filter) (format : DataFormat) :
    d.Prints (options.baseMembers filter format) := by
  have ⟨hoperation, hcollection, _⟩ := textsRaw_iff.1 hraw
  have hformat : isRawText (formatText format).toList = true := by
    cases format <;> decide
  have hmember := (prints_nil d).set "filter" (.object filter) (by decide) hfilter
  have hnamed := hmember.set "operation" (.string options.operation.text) (by decide) hoperation
  have hcollected := hnamed.set "collection" (.string options.collection.text) (by decide)
    hcollection
  exact hcollected.set _ _ (by decide) hformat

theorem prints_addMembers
    (d : DecimalFormat) {options : ManageDocumentOperation} (hraw : options.TextsRaw)
    {ast : Object} (hast : d.Prints ast) : d.Prints (options.addMembers ast) := by
  have ⟨_, _, hversion, hentity, hrun, hconfiguration, hsource⟩ := textsRaw_iff.1 hraw
  have hconfigured := prints_putProvided hast "configuration" (by decide) hconfiguration
  have hsourced := prints_putProvided hconfigured "source" (by decide) hsource
  have hnamed := prints_putProvided hsourced "entity" (by decide) hentity
  have hversioned := prints_putProvided hnamed "version" (by decide) hversion
  exact prints_putProvided hversioned _ (by decide) hrun

/-! ## Search objects -/

theorem read_emptyJson (d : DecimalFormat) : d.read emptyJson = .ok (some []) := rfl

theorem searchObject_notprovided
    (d : DecimalFormat) {options : ManageDocumentOperation} (hraw : options.TextsRaw)
    (hfilter : options.queryFilter = "notprovided") :
    options.searchObject d = .ok (some (options.criteria [])) := by
  have hget : options.getQueryFilter = .ok "notprovided" := by
    rw [ManageDocumentOperation.getQueryFilter, hfilter]
    rfl
  have hbase : options.baseFilterToJsonData = .ok emptyJson := by
    rw [ManageDocumentOperation.baseFilterToJsonData, hget]
    rfl
  have hread : readOrThrow d emptyJson "Unable to query_filter_to_JsonData()." = .ok [] :=
    readOrThrow_eq_ok.2 (read_emptyJson d)
  have htext : options.queryFilterToJsonData d =
      if options.criteria [] = [] then .ok emptyJson else d.write (options.criteria []) := by
    have hdefault : ¬ "notprovided" ≠ "notprovided" := fun h => h rfl
    rw [ManageDocumentOperation.queryFilterToJsonData, hget, hbase, ok_bind, if_neg hdefault,
      ok_bind, hread, ok_bind]
    rfl
  rw [ManageDocumentOperation.searchObject, htext]
  by_cases hnil : options.criteria [] = []
  · rw [if_pos hnil, hnil]
    exact read_emptyJson d
  · have hreread : d.rereadObject (options.criteria []) = options.criteria [] :=
      reread_criteria d options []
    rw [if_neg hnil, d.write_eq_ok hnil]
    change d.read (d.text (options.criteria [])) = _
    rw [d.read_text (prints_criteria d hraw), hreread]

theorem searchObject_given
    (d : DecimalFormat) {options : ManageDocumentOperation} (hne : options.queryFilter ≠ "")
    (hfilter : options.queryFilter ≠ "notprovided") :
    options.searchObject d = d.read options.queryFilter := by
  have hget : options.getQueryFilter = .ok options.queryFilter := by
    rw [ManageDocumentOperation.getQueryFilter, decide_eq_true hne]
    rfl
  rw [ManageDocumentOperation.searchObject, ManageDocumentOperation.queryFilterToJsonData, hget,
    ok_bind, if_pos hfilter]
  rfl

/-! ## The text -/

theorem baseMembers_ne_nil
    (options : ManageDocumentOperation) (filter : Object) (format : DataFormat) :
    options.baseMembers filter format ≠ [] :=
  set_ne_nil _ _ _

theorem putProvided_ne_nil (key : String) (option : OptionText) {ast : Object} (hast : ast ≠ []) :
    putProvided key option ast ≠ [] := by
  unfold putProvided
  split
  · exact hast
  · exact set_ne_nil _ _ _

theorem addMembers_ne_nil (options : ManageDocumentOperation) {ast : Object} (hast : ast ≠ []) :
    options.addMembers ast ≠ [] := by
  have hconfigured := putProvided_ne_nil "configuration" options.configuration hast
  have hsourced := putProvided_ne_nil "source" options.sourceFileName hconfigured
  have hnamed := putProvided_ne_nil "entity" options.entity hsourced
  have hversioned := putProvided_ne_nil "version" options.version hnamed
  exact putProvided_ne_nil "run" options.run hversioned

/-- The text is written from the search object, which was printed once before. -/
theorem writeJsonData_eq_ok
    {d : DecimalFormat} {options : ManageDocumentOperation} (hraw : options.TextsRaw)
    (hformat : options.format ≠ .unknown) {filter : Object}
    (hfilter : options.searchObject d = .ok (some filter)) (hprints : d.Prints filter) :
    options.writeJsonData d =
      .ok (d.text (options.addMembers
        (options.baseMembers (d.rereadObject filter) options.format))) := by
  unfold ManageDocumentOperation.searchObject at hfilter
  rw [bind_eq_ok] at hfilter
  obtain ⟨text, htext, hread⟩ := hfilter
  have hget : options.getFormat = .ok options.format := by
    rw [ManageDocumentOperation.getFormat, decide_eq_true hformat]
    rfl
  have hbase : options.baseWriteJsonData d =
      .ok (d.text (options.baseMembers filter options.format)) := by
    rw [ManageDocumentOperation.baseWriteJsonData, htext, hget, ok_bind,
      readOrThrow_eq_ok.2 hread, ok_bind, ok_bind]
    exact d.write_eq_ok (baseMembers_ne_nil options filter options.format)
  have hreread := d.read_text (prints_baseMembers d hraw hprints options.format)
  rw [ManageDocumentOperation.writeJsonData, hbase, ok_bind, readOrThrow_eq_ok.2 hreread, ok_bind,
    reread_baseMembers]
  exact d.write_eq_ok (addMembers_ne_nil options (baseMembers_ne_nil options _ _))

/-! ## The options that are restored -/

/-- The filter names no other text for an option than the one that is set. -/
def Agrees (key : String) (filter : Object) (option : OptionText) : Prop :=
  ∀ text, stringAt key filter = .ok text → text = "" ∨ text = option.text

theorem optionText_eq_iff {option other : OptionText} :
    option = other ↔ option.text = other.text := by
  cases option
  cases other
  simp

theorem fromFilter_eq_self {key : String} {filter : Object} {option : OptionText} :
    fromFilter key filter option = option ↔ Agrees key filter option := by
  unfold fromFilter Agrees
  cases stringAt key filter with
  | error failure => simp
  | ok text =>
      by_cases htext : text = ""
      · simp [htext]
      · simp [htext, optionText_eq_iff]

/-- The options with what the filter says over them. -/
def ManageDocumentOperation.restored (d : DecimalFormat) (filter : Object)
    (options : ManageDocumentOperation) : ManageDocumentOperation :=
  { options with
    queryFilter := if filter = [] then "notprovided" else d.text filter
    version := fromFilter "version" filter options.version
    entity := fromFilter "entities.name" filter options.entity
    configuration := fromFilter "configurations.name" filter options.configuration
    run := fromFilter "runs.name" filter options.run }

theorem fromFilter_of_string {key : String} {ast : Object} {option : OptionText}
    (h : lookup key ast = some (.string option.text)) (other : OptionText) :
    fromFilter key ast other = option := by
  rw [fromFilter, stringAt_eq_ok.2 h]
  exact dif_neg option.text_ne

/-- The member of an option is read as the option. -/
theorem fromFilter_of_lookup {key : String} {ast : Object} {option : OptionText}
    (h : lookup key ast =
      if option ≠ notprovided then some (.string option.text) else none) :
    fromFilter key ast notprovided = option := by
  by_cases hoption : option = notprovided
  · have hlookup : lookup key ast = none := by
      rw [h, if_neg fun hne => hne hoption]
    have hstring : stringAt key ast = .error (.outOfRange key) := by
      rw [stringAt, valueAt, hlookup]
      rfl
    rw [fromFilter, hstring, hoption]
  · rw [if_pos hoption] at h
    exact fromFilter_of_string h notprovided

/-- The members of an option that stands beside the filter, and of no other. -/
theorem lookup_addMembers (options : ManageDocumentOperation) (ast : Object) :
    (∀ key ∉ ["configuration", "source", "entity", "version", "run"],
      lookup key (options.addMembers ast) = lookup key ast) ∧
    ∀ key option, (key, option) ∈ [("configuration", options.configuration),
        ("source", options.sourceFileName), ("entity", options.entity),
        ("version", options.version), ("run", options.run)] → lookup key ast = none →
      lookup key (options.addMembers ast) =
        if option ≠ notprovided then some (.string option.text) else none := by
  constructor
  · intro key hkey
    simp only [List.mem_cons, List.not_mem_nil, or_false, not_or] at hkey
    simp [ManageDocumentOperation.addMembers, lookup_putProvided, eq_comm, hkey]
  · intro key option hmem hnone
    simp only [List.mem_cons, Prod.mk.injEq, List.not_mem_nil, or_false] at hmem
    rcases hmem with ⟨rfl, rfl⟩ | ⟨rfl, rfl⟩ | ⟨rfl, rfl⟩ | ⟨rfl, rfl⟩ | ⟨rfl, rfl⟩ <;>
      simp [ManageDocumentOperation.addMembers, lookup_putProvided, hnone]

theorem dequote_text (d : DecimalFormat) (ast : Object) : dequote (d.text ast) = d.text ast := by
  have htext : (d.text ast).toList.head? = some '\x7b' := by
    rw [DecimalFormat.text, toList_writeObject]
    rfl
  unfold dequote isQuotedWith
  rw [htext]
  rfl

theorem text_ne (d : DecimalFormat) (ast : Object) : d.text ast ≠ "" := by
  intro h
  have htext : (d.text ast).toList ≠ [] := by
    rw [DecimalFormat.text, toList_writeObject]
    simp [enclosed]
  rw [h] at htext
  exact htext rfl

theorem text_ne_notprovided (d : DecimalFormat) (ast : Object) : d.text ast ≠ "notprovided" := by
  intro h
  have htext : (d.text ast).toList.head? = some '\x7b' := by
    rw [DecimalFormat.text, toList_writeObject]
    rfl
  rw [h] at htext
  exact absurd htext (by decide)

/-- The filter that is found is taken unless it is empty. -/
theorem filterFrom_of_objectAt
    {d : DecimalFormat} {ast filter : Object} (hfilter : objectAt "filter" ast = .ok filter)
    (options : ManageDocumentOperation) :
    filterFrom d ast options = { options with
      queryFilter := if filter = [] then options.queryFilter else d.text filter } := by
  unfold filterFrom
  by_cases hnil : filter = []
  · simp only [hfilter, ok_bind, if_pos hnil]
    rfl
  · have hset : options.setQueryFilter (d.text filter) =
        .ok { options with queryFilter := d.text filter } := by
      rw [ManageDocumentOperation.setQueryFilter, decide_eq_true (text_ne d filter), dequote_text]
      rfl
    simp only [hfilter, ok_bind, if_neg hnil, d.write_eq_ok hnil, hset]

/-- The members that were written restore the options, up to what the filter says. -/
theorem readMembers_addMembers
    (d : DecimalFormat) (options : ManageDocumentOperation) (filter : Object) :
    (ManageDocumentOperation.baseReadMembers d
        (options.addMembers (options.baseMembers filter options.format)) {}).readMembers
      (options.addMembers (options.baseMembers filter options.format)) =
      options.restored d filter := by
  have ⟨hkept, hadded⟩ := lookup_addMembers options (options.baseMembers filter options.format)
  generalize hast : options.addMembers (options.baseMembers filter options.format) = ast
  rw [hast] at hkept hadded
  have hfilter : objectAt "filter" ast = .ok filter := by
    rw [objectAt_eq_ok, hkept _ (by decide)]
    rfl
  have hoperation : fromFilter "operation" ast readdocument = options.operation := by
    apply fromFilter_of_string
    rw [hkept _ (by decide)]
    rfl
  have hcollection : fromFilter "collection" ast notprovided = options.collection := by
    apply fromFilter_of_string
    rw [hkept _ (by decide)]
    rfl
  have hformat : formatFrom ast .unknown = options.format := by
    have hstring : stringAt "dataformat" ast = .ok (formatText options.format) := by
      rw [stringAt_eq_ok, hkept _ (by decide)]
      rfl
    rw [formatFrom, hstring, ok_bind, toDataFormat_formatText]
  have hconfiguration : fromFilter "configuration" ast notprovided = options.configuration :=
    fromFilter_of_lookup (hadded _ _ (by simp) rfl)
  have hsource : fromFilter "source" ast notprovided = options.sourceFileName :=
    fromFilter_of_lookup (hadded _ _ (by simp) rfl)
  have hentity : fromFilter "entity" ast notprovided = options.entity :=
    fromFilter_of_lookup (hadded _ _ (by simp) rfl)
  have hversion : fromFilter "version" ast notprovided = options.version :=
    fromFilter_of_lookup (hadded _ _ (by simp) rfl)
  have hrun : fromFilter "run" ast notprovided = options.run :=
    fromFilter_of_lookup (hadded _ _ (by simp) rfl)
  rw [ManageDocumentOperation.baseReadMembers, filterFrom_of_objectAt hfilter, hoperation,
    hcollection, hformat]
  simp only [ManageDocumentOperation.readMembers, hfilter, ManageDocumentOperation.readOptions,
    ManageDocumentOperation.readFilter, ManageDocumentOperation.restored, hconfiguration, hsource,
    hentity, hversion, hrun]
  by_cases hnil : filter = [] <;> simp [hnil]

/-! ## The round trip -/

/-- The options that both objects have, other than the filter. -/
def SameOptions (options read : ManageDocumentOperation) : Prop :=
  read.operation = options.operation ∧ read.collection = options.collection ∧
    read.format = options.format ∧ read.version = options.version ∧
    read.entity = options.entity ∧ read.configuration = options.configuration ∧
    read.run = options.run ∧ read.sourceFileName = options.sourceFileName

/-- What is written is read into a fresh object as the same options, and its filter denotes the
same search object. -/
def RoundTrips (d : DecimalFormat) (options : ManageDocumentOperation) : Prop :=
  ∃ data read filter, options.writeJsonData d = .ok data ∧
    ManageDocumentOperation.readJsonData d data {} = .ok read ∧ SameOptions options read ∧
    options.searchObject d = .ok (some filter) ∧ read.searchObject d = .ok (some filter)

/-- The filter says nothing else than the options, an empty one is what the options stand for,
and the numbers of the others are printed and read three times without a change. -/
def FilterSurvives (d : DecimalFormat) (options : ManageDocumentOperation) (filter : Object) :
    Prop :=
  Agrees "version" filter options.version ∧ Agrees "entities.name" filter options.entity ∧
    Agrees "configurations.name" filter options.configuration ∧
    Agrees "runs.name" filter options.run ∧
    (filter = [] → options.criteria [] = []) ∧
    d.rereadObject (d.rereadObject (d.rereadObject filter)) = filter

theorem agrees_rereadObject {d : DecimalFormat} {key : String} {filter : Object}
    {option : OptionText} : Agrees key (d.rereadObject filter) option ↔ Agrees key filter option := by
  simp only [Agrees, d.stringAt_rereadObject]

theorem sameOptions_restored
    (d : DecimalFormat) (options : ManageDocumentOperation) (filter : Object) :
    SameOptions options (options.restored d filter) ↔
      Agrees "version" filter options.version ∧ Agrees "entities.name" filter options.entity ∧
        Agrees "configurations.name" filter options.configuration ∧
        Agrees "runs.name" filter options.run := by
  simp [SameOptions, ManageDocumentOperation.restored, fromFilter_eq_self]

/-- The search object of options that were restored. -/
theorem searchObject_restored
    (d : DecimalFormat) {options : ManageDocumentOperation} (hraw : options.TextsRaw)
    {filter : Object} (hfilter : d.Prints filter)
    (hsame : SameOptions options (options.restored d filter)) :
    (options.restored d filter).searchObject d =
      .ok (some (if filter = [] then options.criteria [] else d.rereadObject filter)) := by
  by_cases hnil : filter = []
  · have hrestored : options.restored d filter = { options with queryFilter := "notprovided" } := by
      have ⟨_, _, _, hversion, hentity, hconfiguration, hrun, _⟩ := hsame
      simp only [ManageDocumentOperation.restored] at hversion hentity hconfiguration hrun
      rw [ManageDocumentOperation.restored, hversion, hentity, hconfiguration, hrun, if_pos hnil]
    rw [hrestored, if_pos hnil]
    have hgiven : ManageDocumentOperation.TextsRaw { options with queryFilter := "notprovided" } :=
      hraw
    exact searchObject_notprovided d hgiven rfl
  · have htext : (options.restored d filter).queryFilter = d.text filter := if_neg hnil
    rw [searchObject_given d, htext, d.read_text hfilter, if_neg hnil]
    · rw [htext]
      exact text_ne d filter
    · rw [htext]
      exact text_ne_notprovided d filter

/-- The filter that the options are read back with has been printed and read twice. -/
theorem roundTrips_iff_restored
    {d : DecimalFormat} {options : ManageDocumentOperation} (hraw : options.TextsRaw)
    (hformat : options.format ≠ .unknown) {filter : Object}
    (hfilter : options.searchObject d = .ok (some filter)) (hprints : d.Prints filter) :
    RoundTrips d options ↔
      SameOptions options (options.restored d (d.rereadObject (d.rereadObject filter))) ∧
        (options.restored d (d.rereadObject (d.rereadObject filter))).searchObject d =
          .ok (some filter) := by
  have hwrite := writeJsonData_eq_ok hraw hformat hfilter hprints
  have hast := prints_addMembers d hraw
    (prints_baseMembers d hraw (d.prints_reread hprints) options.format)
  have hread := d.read_text hast
  rw [reread_addMembers, reread_baseMembers] at hread
  constructor
  · rintro ⟨data, read, other, hdata, hreadJson, hsame, hother, hsearch⟩
    rw [hwrite, Except.ok.injEq] at hdata
    rw [hfilter, Except.ok.injEq, Option.some.injEq] at hother
    obtain ⟨ast, hast, rfl⟩ := readJsonData_eq_ok.1 hreadJson
    rw [← hdata, hread, Except.ok.injEq, Option.some.injEq] at hast
    rw [← hast, readMembers_addMembers] at hsame hsearch
    rw [hother]
    exact ⟨hother ▸ hsame, hother ▸ hsearch⟩
  · intro h
    refine ⟨_, options.restored d (d.rereadObject (d.rereadObject filter)), filter, hwrite, ?_, h.1,
      hfilter, h.2⟩
    rw [readJsonData_eq_ok]
    exact ⟨_, hread, readMembers_addMembers d options _⟩

theorem roundTrips_iff_of_raw
    {d : DecimalFormat} {options : ManageDocumentOperation} (hraw : options.TextsRaw)
    (hformat : options.format ≠ .unknown) {filter : Object}
    (hfilter : options.searchObject d = .ok (some filter)) (hprints : d.Prints filter) :
    RoundTrips d options ↔ FilterSurvives d options filter := by
  have hsame := sameOptions_restored d options (d.rereadObject (d.rereadObject filter))
  simp only [agrees_rereadObject] at hsame
  have hempties : d.rereadObject (d.rereadObject filter) = [] ↔ filter = [] := by
    rw [d.rereadObject_eq_nil, d.rereadObject_eq_nil]
  rw [roundTrips_iff_restored hraw hformat hfilter hprints, FilterSurvives]
  constructor
  · rintro ⟨hoptions, hsearch⟩
    have ⟨hversion, hentity, hconfiguration, hrun⟩ := hsame.1 hoptions
    rw [searchObject_restored d hraw (d.prints_reread (d.prints_reread hprints)) hoptions,
      Except.ok.injEq, Option.some.injEq] at hsearch
    refine ⟨hversion, hentity, hconfiguration, hrun, fun hnil => ?_, ?_⟩
    · rw [if_pos (hempties.2 hnil)] at hsearch
      rw [hsearch, hnil]
    · by_cases hnil : filter = []
      · rw [hnil]
        rfl
      · rwa [if_neg (mt hempties.1 hnil)] at hsearch
  · rintro ⟨hversion, hentity, hconfiguration, hrun, hempty, hreread⟩
    have hoptions := hsame.2 ⟨hversion, hentity, hconfiguration, hrun⟩
    refine ⟨hoptions, ?_⟩
    rw [searchObject_restored d hraw (d.prints_reread (d.prints_reread hprints)) hoptions]
    by_cases hnil : filter = []
    · rw [if_pos (hempties.2 hnil), hempty hnil, hnil]
    · rw [if_neg (mt hempties.1 hnil), hreread]

theorem stringAt_putProvided {key key' text : String} {option : OptionText} {ast : Object}
    (h : stringAt key (putProvided key' option ast) = .ok text) :
    (key' = key ∧ text = option.text) ∨ stringAt key ast = .ok text := by
  rw [stringAt_eq_ok, lookup_putProvided] at h
  split at h
  · rename_i hkey
    rw [Option.some.injEq, Value.string.injEq] at h
    exact Or.inl ⟨hkey.1, h.symm⟩
  · exact Or.inr (stringAt_eq_ok.2 h)

/-- The members of a filter that is made from the options. -/
theorem stringAt_criteria {options : ManageDocumentOperation} {key text : String}
    (h : stringAt key (options.criteria []) = .ok text) :
    ("configurations.name" = key ∧ text = options.configuration.text) ∨
      ("entities.name" = key ∧ text = options.entity.text) ∨
      ("version" = key ∧ text = options.version.text) := by
  have hnamed : ∀ ast : Object, ast = putProvided "entities.name" options.entity
      (putProvided "version" options.version []) → stringAt key ast = .ok text →
      ("entities.name" = key ∧ text = options.entity.text) ∨
        ("version" = key ∧ text = options.version.text) := by
    rintro ast rfl hast
    refine (stringAt_putProvided hast).imp_right fun hversion => ?_
    refine (stringAt_putProvided hversion).resolve_right fun hnil => ?_
    rw [stringAt_eq_ok] at hnil
    cases hnil
  unfold ManageDocumentOperation.criteria at h
  dsimp only at h
  split at h
  · exact Or.inr (hnamed _ rfl h)
  · exact (stringAt_putProvided h).imp_right (hnamed _ rfl)

/-- A filter that is made from the options agrees with them. -/
theorem filterSurvives_criteria (d : DecimalFormat) (options : ManageDocumentOperation) :
    FilterSurvives d options (options.criteria []) := by
  have hversion : Agrees "version" (options.criteria []) options.version :=
    fun text h => Or.inr (by simpa using stringAt_criteria h)
  have hentity : Agrees "entities.name" (options.criteria []) options.entity :=
    fun text h => Or.inr (by simpa using stringAt_criteria h)
  have hconfiguration : Agrees "configurations.name" (options.criteria []) options.configuration :=
    fun text h => Or.inr (by simpa using stringAt_criteria h)
  have hrun : Agrees "runs.name" (options.criteria []) options.run :=
    fun text h => Or.inr (by simpa using stringAt_criteria h)
  have hreread : d.rereadObject (options.criteria []) = options.criteria [] :=
    reread_criteria d options []
  refine ⟨hversion, hentity, hconfiguration, hrun, id, ?_⟩
  rw [hreread, hreread, hreread]

/-! ## The exact condition -/

/-- Without texts that break the JSON, and with a filter that survives. -/
def Survives (d : DecimalFormat) (options : ManageDocumentOperation) : Prop :=
  options.TextsRaw ∧ ∀ filter, d.read options.queryFilter = .ok (some filter) →
    FilterSurvives d options filter

/-- Options that come back had raw texts. -/
theorem RoundTrips.textsRaw {d : DecimalFormat} {options : ManageDocumentOperation}
    (h : RoundTrips d options) : options.TextsRaw := by
  obtain ⟨data, read, filter, -, hread, hsame, -⟩ := h
  have hraw := textsRaw_of_readJsonData hread
  have ⟨hoperation, hcollection, _, hversion, hentity, hconfiguration, hrun, hsource⟩ := hsame
  rw [textsRaw_iff] at hraw ⊢
  rwa [hoperation, hcollection, hversion, hentity, hconfiguration, hrun, hsource] at hraw

/-- A version that the filter names as well. -/
def filteredOptions : ManageDocumentOperation :=
  { format := .gui, version := ⟨"v1", by decide⟩,
    queryFilter := "\x7b\"version\":\"v1\"\x7d" }

/-- A version with a quote in it. -/
def quotedVersion : ManageDocumentOperation :=
  { format := .gui, version := ⟨"v\"1", by decide⟩ }

end Options

end ArtdaqDatabase
