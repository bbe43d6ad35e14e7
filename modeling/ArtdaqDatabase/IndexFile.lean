import ArtdaqDatabase.IndexTables
import ArtdaqDatabase.PrintableRecords

/-!
# The file of the index

An opened index is the tree of its file, and a changed one is written back when it is
closed.  The names and ids in it come from documents and file names that can be
printed, so that the file which is written is read as the same index.
-/

namespace ArtdaqDatabase

open OrderedTable SortedUnique InvertedIndex InPlaceUpdate SearchIndex Scanner

/-! ## The tree -/

/-- The member of the file that holds a table. -/
def Column.key : Column → String
  | .version => "version"
  | .configurations => "configurations.name"
  | .entities => "entities.name"
  | .versionAliases => "aliases.active.name"
  | .runs => "runs.name"
  | .configurationsAssigned => "configurations.assigned"

theorem raw_ouid : isRawText "ouid".toList = true := by
  decide

theorem Column.raw_key (column : Column) : isRawText column.key.toList = true := by
  cases column <;> decide

def textsValue (texts : List String) : Value :=
  .array (texts.map Value.string)

def postingsValue (t : Postings) : Value :=
  .object (t.map fun entry => (entry.1, textsValue entry.2))

/-- The members of the file in their order. -/
def SearchIndex.ast (index : SearchIndex) : Object :=
  ("ouid", textsValue index.ouid) ::
    [Column.version, .configurations, .entities, .versionAliases, .runs,
      .configurationsAssigned].map fun column => (column.key, postingsValue (index.table column))

def textsOf (v : Value) : Except Failure (List String) := do
  let values ← v.getArray
  values.mapM Value.getString

def postingsOf (v : Value) : Except Failure Postings := do
  let o ← v.getObject
  o.mapM fun entry => do
    let ids ← textsOf entry.2
    .ok (entry.1, ids)

def postingsAt (column : Column) (ast : Object) : Except Failure Postings :=
  valueAt column.key ast >>= postingsOf

/-- A tree of another shape fails here, in the source where it is first used. -/
def SearchIndex.ofAst (ast : Object) : Except Failure SearchIndex := do
  let ouid ← valueAt "ouid" ast >>= textsOf
  let version ← postingsAt .version ast
  let configurations ← postingsAt .configurations ast
  let entities ← postingsAt .entities ast
  let versionAliases ← postingsAt .versionAliases ast
  let runs ← postingsAt .runs ast
  let configurationsAssigned ← postingsAt .configurationsAssigned ast
  .ok
    { ouid := ouid
      version := version
      configurations := configurations
      entities := entities
      versionAliases := versionAliases
      runs := runs
      configurationsAssigned := configurationsAssigned }

theorem textsOf_textsValue (texts : List String) : textsOf (textsValue texts) = .ok texts := by
  have hmap : (texts.map Value.string).mapM Value.getString = .ok texts := by
    induction texts with
    | nil => rfl
    | cons text texts ih =>
        rw [List.map_cons, List.mapM_cons, ih]
        rfl
  exact hmap

theorem postingsOf_postingsValue (t : Postings) : postingsOf (postingsValue t) = .ok t := by
  have hmap : (t.map fun entry => (entry.1, textsValue entry.2)).mapM
      (fun entry : String × Value => do
        let ids ← textsOf entry.2
        .ok (entry.1, ids)) = .ok t := by
    induction t with
    | nil => rfl
    | cons entry t ih =>
        rw [List.map_cons, List.mapM_cons, ih, textsOf_textsValue]
        rfl
  exact hmap

theorem postingsAt_ast (column : Column) (index : SearchIndex) :
    postingsAt column index.ast = .ok (index.table column) := by
  have hvalue : valueAt column.key index.ast = .ok (postingsValue (index.table column)) := by
    rw [valueAt_eq_ok]
    cases column <;> rfl
  rw [postingsAt, hvalue]
  exact postingsOf_postingsValue _

theorem ofAst_ast (index : SearchIndex) : SearchIndex.ofAst index.ast = .ok index := by
  have houid : (valueAt "ouid" index.ast >>= textsOf) = .ok index.ouid :=
    textsOf_textsValue index.ouid
  simp only [SearchIndex.ofAst, houid, postingsAt_ast]
  rfl

/-! ## Texts that can be printed -/

/-- The names and the ids can be printed. -/
structure RawIndex (index : SearchIndex) : Prop where
  ouid : ∀ oid ∈ index.ouid, isRawText oid.toList = true
  table : ∀ column, ∀ entry ∈ index.table column,
    isRawText entry.1.toList = true ∧ ∀ oid ∈ entry.2, isRawText oid.toList = true

theorem rawIndex_empty : RawIndex SearchIndex.empty where
  ouid := by simp [SearchIndex.empty]
  table column := by cases column <;> simp [SearchIndex.empty, SearchIndex.table]

section Readable

theorem textsValue_readable {texts : List String}
    (htexts : ∀ text ∈ texts, isRawText text.toList = true) : (textsValue texts).Readable := by
  change valuesReadable (texts.map Value.string)
  induction texts with
  | nil => exact True.intro
  | cons text texts ih =>
      exact ⟨htexts text (by simp), ih fun other hother => htexts other (by simp [hother])⟩

theorem postingsValue_readable {t : Postings}
    (ht : ∀ entry ∈ t, isRawText entry.1.toList = true ∧
      ∀ oid ∈ entry.2, isRawText oid.toList = true) : (postingsValue t).Readable := by
  change membersReadable (t.map fun entry => (entry.1, textsValue entry.2))
  rw [membersReadable_iff]
  intro m hm
  obtain ⟨entry, hentry, rfl⟩ := List.mem_map.1 hm
  exact ⟨(ht entry hentry).1, textsValue_readable (ht entry hentry).2⟩

theorem ast_readable {index : SearchIndex} (hraw : RawIndex index) :
    membersReadable index.ast := by
  have hcolumn : ∀ column, (postingsValue (index.table column)).Readable :=
    fun column => postingsValue_readable (hraw.table column)
  rw [membersReadable_iff, SearchIndex.ast, List.forall_mem_cons]
  refine ⟨⟨raw_ouid, textsValue_readable hraw.ouid⟩, ?_⟩
  intro m hm
  obtain ⟨column, -, rfl⟩ := List.mem_map.1 hm
  exact ⟨column.raw_key, hcolumn column⟩

end Readable

theorem ast_ne_nil (index : SearchIndex) : index.ast ≠ [] :=
  List.cons_ne_nil _ _

/-! ## Updates of the index -/

section Updates

variable {index : SearchIndex} (hraw : RawIndex index)
include hraw

theorem RawIndex.overTable {f : Postings → Postings} {column : Column}
    (hf : ∀ entry ∈ f (index.table column), isRawText entry.1.toList = true ∧
      ∀ oid ∈ entry.2, isRawText oid.toList = true) :
    RawIndex (SearchIndex.overTable f column index) := by
  refine ⟨by simpa using hraw.ouid, fun other => ?_⟩
  rw [table_overTable]
  split
  · rename_i heq
    rwa [heq]
  · exact hraw.table other

theorem RawIndex.posting {column : Column} {value oid : String}
    (hoid : oid ∈ posting value (index.table column)) : isRawText oid.toList = true := by
  rw [InvertedIndex.posting] at hoid
  cases hlookup : lookup value (index.table column) with
  | none => simp [hlookup] at hoid
  | some ids =>
      rw [hlookup, Option.getD_some] at hoid
      exact (hraw.table column _ (mem_of_lookup hlookup)).2 oid hoid

theorem RawIndex.insert {value oid : String} (hvalue : isRawText value.toList = true)
    (hoid : isRawText oid.toList = true) (column : Column) :
    RawIndex (SearchIndex.overTable (insertPosting value oid) column index) := by
  refine hraw.overTable fun entry hentry => ?_
  rcases mem_set hentry with rfl | hold
  · refine ⟨hvalue, fun other hother => ?_⟩
    rw [mem_sortUnique, List.mem_append, List.mem_singleton] at hother
    rcases hother with hother | rfl
    · exact hraw.posting hother
    · exact hoid
  · exact hraw.table column entry hold

theorem RawIndex.drop (value oid : String) (column : Column) :
    RawIndex (SearchIndex.overTable (dropPosting value oid) column index) := by
  have hkept : ∀ t : Postings, (∀ entry ∈ t, isRawText entry.1.toList = true ∧
      ∀ oid ∈ entry.2, isRawText oid.toList = true) →
      ∀ entry ∈ dropPosting value oid t, isRawText entry.1.toList = true ∧
        ∀ oid ∈ entry.2, isRawText oid.toList = true := by
    intro t ht
    induction t with
    | nil => exact ht
    | cons first t ih =>
        rw [List.forall_mem_cons] at ht
        rw [dropPosting, adjust]
        split
        · rw [List.forall_mem_cons]
          exact ⟨⟨ht.1.1, fun other hother => ht.1.2 other (List.mem_of_mem_filter hother)⟩, ht.2⟩
        · rw [List.forall_mem_cons]
          exact ⟨ht.1, ih ht.2⟩
  exact hraw.overTable (hkept _ (hraw.table column))

end Updates

section Documents

variable {ouid : String} (houid : isRawText ouid.toList = true)

theorem ensures_confirmed {rewrite : SearchIndex → SearchIndex} (ouid value : String)
    (hrewrite : ∀ index, RawIndex index → RawIndex (rewrite index)) :
    Ensures RawIndex (fun _ => True) (updateTable ouid value rewrite) :=
  (Ensures.lift (Gives.trivial _)).bind fun _ _ => (Ensures.lift (Gives.trivial _)).bind fun _ _ =>
    Ensures.write hrewrite

theorem ensures_dropped (column : Column) (ouid value : String) :
    Ensures RawIndex (fun _ => True)
      (updateTable ouid value (overTable (dropPosting value ouid) column)) :=
  ensures_confirmed ouid value fun _ hraw => hraw.drop value ouid column

include houid

theorem ensures_inserted (column : Column) {value : String}
    (hvalue : isRawText value.toList = true) :
    Ensures RawIndex (fun _ => True)
      (updateTable ouid value (overTable (insertPosting value ouid) column)) :=
  ensures_confirmed ouid value fun _ hraw => hraw.insert hvalue houid column

theorem ensures_addId : Ensures RawIndex (fun _ => True) (addId ouid) := by
  refine (Ensures.lift (Gives.trivial _)).bind fun _ _ => Ensures.write fun index hraw => ?_
  refine ⟨fun oid hoid => ?_, by simpa using hraw.table⟩
  rw [overOuid, mem_sortUnique, List.mem_append, List.mem_singleton] at hoid
  rcases hoid with hoid | rfl
  · exact hraw.ouid oid hoid
  · exact houid

omit houid in
theorem ensures_removeId (oldOuid : String) :
    Ensures RawIndex (fun _ => True) (removeId oldOuid) := by
  refine (Ensures.lift (Gives.trivial _)).bind fun _ _ => Ensures.write fun index hraw => ?_
  exact ⟨fun oid hoid => hraw.ouid oid (List.mem_of_mem_filter hoid), by simpa using hraw.table⟩

omit houid in
theorem ensures_forEachName {entries : List Value} (hentries : valuesPrintable entries)
    {act : String → IndexM Unit}
    (hact : ∀ name, isRawText name.toList = true → Ensures RawIndex (fun _ => True) (act name)) :
    Ensures RawIndex (fun _ => True) (forEachName entries act) := by
  refine Ensures.forM fun entry hentry => ?_
  have hname : Gives (fun name => isRawText name.toList = true) (nameOf entry) :=
    (gives_getObject (valuesPrintable_iff.1 hentries entry hentry)).bind fun _ => gives_stringAt
  exact (Ensures.lift hname).bind hact

omit houid in
theorem ensures_forEachConfiguration {configs : List Value} (hconfigs : valuesPrintable configs)
    {act actAssigned : String → String → IndexM Unit}
    (hact : ∀ name, isRawText name.toList = true → Ensures RawIndex (fun _ => True) (act ouid name))
    (hassigned : ∀ time name, isRawText time.toList = true → isRawText name.toList = true →
      Ensures RawIndex (fun _ => True) (actAssigned time name)) :
    Ensures RawIndex (fun _ => True) (forEachConfiguration configs act actAssigned ouid) := by
  refine Ensures.forM fun config hconfig => ?_
  have hobject := gives_getObject (valuesPrintable_iff.1 hconfigs config hconfig)
  have hname : Gives (fun name => isRawText name.toList = true) (nameOf config) :=
    hobject.bind fun _ => gives_stringAt
  refine (Ensures.lift hname).bind fun name hname => (hact name hname).bind fun _ _ => ?_
  refine (Ensures.lift (hobject.bind fun _ => gives_stringAt)).bind fun time htime => ?_
  exact hassigned time name htime hname

omit houid in
theorem ensures_tryIgnore {body : IndexM Unit} (hbody : Ensures RawIndex (fun _ => True) body) :
    Ensures RawIndex (fun _ => True) (tryIgnore body) :=
  Ensures.tryCatch hbody fun _ => Ensures.pure True.intro

variable {document : Object} (hdocument : membersPrintable document)
include hdocument

theorem ensures_addDocument : Ensures RawIndex (fun _ => True) (addDocument document ouid) := by
  have hinserted : ∀ column name, isRawText name.toList = true → Ensures RawIndex (fun _ => True)
      (updateTable ouid name (overTable (insertPosting name ouid) column)) :=
    fun column name hname => ensures_inserted houid column hname
  refine (Ensures.lift (Gives.trivial _)).bind fun _ _ => Ensures.tryCatch ?_ fun _ =>
    Ensures.pure True.intro
  refine (ensures_addId houid).bind fun _ _ => ?_
  refine (Ensures.lift (gives_stringAt hdocument)).bind fun version hversion => ?_
  refine (hinserted .version version hversion).bind fun _ _ => ?_
  refine (Ensures.lift (gives_arrayAt hdocument)).bind fun configs hconfigs => ?_
  refine (ensures_forEachConfiguration hconfigs (hinserted .configurations)
    fun time name htime hname => ensures_inserted htime .configurationsAssigned hname).bind
      fun _ _ => ?_
  refine (ensures_tryIgnore <| (Ensures.lift (gives_arrayAt hdocument)).bind fun entities hentities =>
    ensures_forEachName hentities (hinserted .entities)).bind fun _ _ => ?_
  refine (ensures_tryIgnore <| (Ensures.lift ((gives_objectAt hdocument).bind fun _ =>
    gives_arrayAt)).bind fun aliases haliases =>
      ensures_forEachName haliases (hinserted .versionAliases)).bind fun _ _ => ?_
  refine (ensures_tryIgnore <| (Ensures.lift (gives_arrayAt hdocument)).bind fun runs hruns =>
    ensures_forEachName hruns (hinserted .runs)).bind fun _ _ => ?_
  exact Ensures.pure True.intro

omit houid in
theorem ensures_removeDocument (ouid : String) :
    Ensures RawIndex (fun _ => True) (removeDocument document ouid) := by
  have hdropped : ∀ column name, isRawText name.toList = true → Ensures RawIndex (fun _ => True)
      (updateTable ouid name (overTable (dropPosting name ouid) column)) :=
    fun column name _ => ensures_dropped column ouid name
  refine (Ensures.lift (Gives.trivial _)).bind fun _ _ => Ensures.tryCatch ?_ fun _ =>
    Ensures.pure True.intro
  refine (ensures_removeId ouid).bind fun _ _ => ?_
  refine (Ensures.lift (gives_stringAt hdocument)).bind fun version hversion => ?_
  refine (hdropped .version version hversion).bind fun _ _ => ?_
  refine (Ensures.lift (gives_arrayAt hdocument)).bind fun configs hconfigs => ?_
  refine (ensures_forEachConfiguration hconfigs (hdropped .configurations)
    fun time name _ _ => ensures_dropped .configurationsAssigned time name).bind fun _ _ => ?_
  refine (Ensures.lift ((gives_objectAt hdocument).bind fun _ => gives_arrayAt)).bind
    fun aliases haliases => ?_
  refine (ensures_forEachName haliases (hdropped .configurations)).bind fun _ _ => ?_
  refine (Ensures.lift (gives_arrayAt hdocument)).bind fun runs hruns => ?_
  exact (ensures_forEachName hruns (hdropped .runs)).bind fun _ _ => Ensures.pure True.intro

end Documents

/-! ## Opening and closing -/

/-- `empty_filesystem_index`. -/
def emptyFilesystemIndex : String :=
  "\x7b\"ouid\":[], \"version\":\x7b\x7d,\"configurations.name\":\x7b\x7d, " ++
    "\"entities.name\":\x7b\x7d,\"aliases.active.name\":\x7b\x7d, " ++
    "\"runs.name\":\x7b\x7d,\"configurations.assigned\":\x7b\x7d \x7d"

def msgCorruptIndex : Failure :=
  .runtimeError
    "StorageProvider::FileSystemDB::SearchIndex SearchIndex is corrupt and needs to be rebuilt"

section Reading

variable (decimalText : List Char → String)

/-- The text of an index file, without a rebuild. -/
def readIndex (text : String) : Except Failure SearchIndex := do
  match ← JsonReader.read decimalText text with
  | some ast => SearchIndex.ofAst ast
  | none => .error msgCorruptIndex

theorem takes_emptyArray (depth : ℕ) :
    Takes (valueRule decimalText (depth + 2)) ['[', ']'] (.array []) Closes := by
  intro rest _
  rfl

theorem takes_emptyObject (depth : ℕ) :
    Takes (valueRule decimalText (depth + 2)) ['\x7b', '\x7d'] (.object []) Closes := by
  intro rest _
  rfl

/-- A member of the empty index. -/
def emptyMember (blanks : List Char) (key : String) (brackets : List Char) : List Char :=
  blanks ++ ('"' :: key.toList ++ ['"']) ++ ([] ++ [':'] ++ brackets)

theorem toList_emptyFilesystemIndex :
    emptyFilesystemIndex.toList = ['\x7b'] ++
      (separated (emptyMember [] "ouid" ['[', ']'] ::
        [emptyMember [' '] (Column.key .version) ['\x7b', '\x7d'],
          emptyMember [] (Column.key .configurations) ['\x7b', '\x7d'],
          emptyMember [' '] (Column.key .entities) ['\x7b', '\x7d'],
          emptyMember [] (Column.key .versionAliases) ['\x7b', '\x7d'],
          emptyMember [' '] (Column.key .runs) ['\x7b', '\x7d'],
          emptyMember [] (Column.key .configurationsAssigned) ['\x7b', '\x7d']]) ++
        ([' '] ++ ['\x7d'])) := by
  decide +kernel

theorem read_emptyFilesystemIndex :
    JsonReader.read decimalText emptyFilesystemIndex = .ok (some SearchIndex.empty.ast) := by
  obtain ⟨depth, hdepth⟩ : ∃ depth, emptyFilesystemIndex.length = depth + 2 :=
    ⟨emptyFilesystemIndex.length - 2, by decide +kernel⟩
  have hnone : ∀ c ∈ ([] : List Char), isSpace c = true := List.all_eq_true.1 rfl
  have hblank : ∀ c ∈ [' '], isSpace c = true := List.all_eq_true.1 rfl
  have hvalue := takes_emptyObject decimalText depth
  have hshrinks := (sound_dataRule (sound_valueRule decimalText (depth + 2))).shrinks
  have hname := fun column : Column => column.raw_key
  have hfirst := takes_named decimalText hnone raw_ouid hnone (takes_emptyArray decimalText depth)
  have hobject := takes_closed hfirst
    (List.Forall₂.cons (takes_named decimalText hblank (hname .version) hnone hvalue) <|
      List.Forall₂.cons (takes_named decimalText hnone (hname .configurations) hnone hvalue) <|
        List.Forall₂.cons (takes_named decimalText hblank (hname .entities) hnone hvalue) <|
          List.Forall₂.cons (takes_named decimalText hnone (hname .versionAliases) hnone hvalue) <|
            List.Forall₂.cons (takes_named decimalText hblank (hname .runs) hnone hvalue) <|
              List.Forall₂.cons
                (takes_named decimalText hnone (hname .configurationsAssigned) hnone hvalue)
                List.Forall₂.nil)
    hblank hshrinks (l := '\x7b') (r := '\x7d') (by decide) (by decide) (fun _ => True) [] trivial
  have htext : emptyFilesystemIndex ≠ "" := by decide +kernel
  have hread : objectRule (valueRule decimalText emptyFilesystemIndex.length)
      emptyFilesystemIndex.toList = some (SearchIndex.empty.ast, []) := by
    rw [toList_emptyFilesystemIndex, hdepth]
    rw [List.append_nil] at hobject
    exact hobject
  unfold JsonReader.read
  rw [hread]
  simp [confirm, htext, bind, Except.bind, pure, Except.pure]

theorem readIndex_empty : readIndex decimalText emptyFilesystemIndex = .ok SearchIndex.empty := by
  rw [readIndex, read_emptyFilesystemIndex]
  exact ofAst_ast SearchIndex.empty

/-- What is written is read. -/
theorem readIndex_written {index : SearchIndex} (hraw : RawIndex index) :
    readIndex decimalText (writeValue (.object index.ast)) = .ok index := by
  rw [readIndex, read_writeValue decimalText (ast_readable hraw)]
  exact ofAst_ast index

end Reading

end ArtdaqDatabase
