import ArtdaqDatabase.ManagementFrame
import ArtdaqDatabase.TidyStores
import ArtdaqDatabase.WrittenData

/-!
# Records made from data alone

The overlay of the empty object is the record of the defaults.  It is accepted at
every time, so data in the format `json` always become a record, which carries what
the options of its write name and nothing else.
-/

namespace ArtdaqDatabase

open OrderedTable InPlaceUpdate

/-! ## Defaults -/

/-- The value is what the section makes of its default, and takes as it is. -/
def Section.IsDefault (s : Section) (env : Environment) (m : String × Value) : Prop :=
  m.1 = s.key ∧ (∃ d, s.default = some d ∧ s.normalize env (d env) = .ok m.2) ∧
    s.normalize.Accepts m.2

section Defaults

variable {env : Environment} {sections : List Section} {members : Object}
  (hdefaults : List.Forall₂ (fun s m => Section.IsDefault s env m) sections members)
  (hnodup : (sections.map Section.key).Nodup)
include hdefaults hnodup

theorem applySections_defaults {o : Object} (habsent : ∀ s ∈ sections, lookup s.key o = none) :
    applySections sections env o = .ok (o ++ members) := by
  induction hdefaults generalizing o with
  | nil => simp [applySections, pure, Except.pure]
  | @cons s m sections members hm _ ih =>
      obtain ⟨key, v⟩ := m
      obtain ⟨hkey, ⟨d, hdefault, hnormalize⟩, -⟩ := hm
      dsimp only at hkey hnormalize
      subst hkey
      rw [List.map_cons, List.nodup_cons] at hnodup
      have hnone := habsent s (by simp)
      have hfill : s.fill env o = set s.key (d env) o := by
        rw [Section.fill, hdefault]
        dsimp only
        rw [if_pos (count_eq_zero_iff.2 hnone)]
      have honce : count s.key (set s.key (d env) o) = 1 := count_set_self_of_absent hnone _
      have happly : s.apply env o = .ok (o ++ [(s.key, v)]) := by
        simp only [Section.apply, hfill, honce, bind_eq_ok, valueAt_eq_ok, Except.ok.injEq,
          confirm_eq_ok]
        refine ⟨(), by simp, d env, lookup_set_self _ _ _, v, hnormalize, ?_⟩
        rw [set_set, set_of_absent hnone]
      have hrest := ih hnodup.2 (o := o ++ [(s.key, v)]) fun s' hs' => by
        have hne : s.key ≠ s'.key := fun h => hnodup.1 (h ▸ List.mem_map_of_mem hs')
        rw [lookup_append, habsent s' (List.mem_cons_of_mem _ hs')]
        simp [lookup, hne]
      rw [List.append_assoc, List.singleton_append] at hrest
      exact applySections_cons.2 ⟨_, happly, hrest⟩

omit hnodup in
theorem keys_defaults : members.map Prod.fst = sections.map Section.key := by
  induction hdefaults with
  | nil => rfl
  | cons hm _ ih => rw [List.map_cons, List.map_cons, hm.1, ih]

omit hnodup in
theorem exists_default : ∀ s ∈ sections, ∃ m ∈ members, s.IsDefault env m := by
  induction hdefaults with
  | nil => simp
  | @cons s m _ _ hm _ ih =>
      intro s' hs'
      rcases List.mem_cons.1 hs' with rfl | hs'
      · exact ⟨m, by simp, hm⟩
      · obtain ⟨m', hm', hdefault⟩ := ih s' hs'
        exact ⟨m', List.mem_cons_of_mem _ hm', hdefault⟩

/-- The defaults hold, so that another overlay leaves them alone. -/
theorem holds_defaults : ∀ s ∈ sections, s.Holds members := by
  intro s hs
  obtain ⟨m, hm, hkey, -, haccepts⟩ := exists_default hdefaults s hs
  have hkeys : (members.map Prod.fst).Nodup := by
    rwa [keys_defaults hdefaults]
  have hmem : (s.key, m.2) ∈ members := by
    rw [← hkey]
    exact hm
  refine ⟨⟨m.2, lookup_of_mem hkeys hmem, haccepts⟩, fun _ => ?_⟩
  exact List.count_eq_one_of_mem hkeys (List.mem_map.2 ⟨_, hmem, rfl⟩)

/-- The overlay of the empty object is the object of the defaults. -/
theorem overlayObject_defaults :
    overlayObject sections env (.object []) = .ok (.object members) ∧
      (overlayObject sections).Accepts (.object members) := by
  constructor
  · have happly := applySections_defaults hdefaults hnodup (o := []) (by simp)
    exact overlayObject_eq_ok.2 ⟨[], members, rfl, by simpa using happly, rfl⟩
  · exact (overlayObject_accepts_iff hnodup).2 (holds_defaults hdefaults hnodup)

end Defaults

/-! ## The record of the defaults -/

section Fresh

variable (env : Environment)

def freshOrigin : Object :=
  [("source", .string "template"), ("name", .string "notprovided"), ("format", .string "json"),
    ("created", .string env.timestamp), ("rawdata", .array [])]

def freshBookkeeping : Object :=
  [("isdeleted", .boolean false), ("isreadonly", .boolean false), ("updates", .array []),
    ("created", .string env.timestamp)]

/-- What the overlay makes of the empty object. -/
def freshRecord : Object :=
  [("document", .object (payloadSection [])), ("comments", .array []),
    ("origin", .object (freshOrigin env)), ("version", .string "notprovided"),
    ("entities", .array []), ("configurations", .array []),
    ("changelog", .string "notprovided"), ("bookkeeping", .object (freshBookkeeping env)),
    ("_id", .object [("$oid", .string env.recordOid)]), ("collection", .string "notprovided"),
    ("aliases", .object [("active", .array []), ("history", .array [])]), ("runs", .array []),
    ("attachments", .array []), ("configtype", .string "notprovided")]

theorem created_isDefault :
    (⟨"created", nowDefault, true, ovlTimeStamp⟩ : Section).IsDefault env
      ("created", .string env.timestamp) := by
  have haccepts := ovlTimeStamp_accepts env.timestamp_iso
  exact ⟨rfl, ⟨_, rfl, haccepts env⟩, haccepts⟩

theorem isDefault_of_rfl {s : Section} {v w : Value} (hdefault : s.default = valueDefault v)
    (hv : ∀ env, s.normalize env v = .ok w) (hw : s.normalize.Accepts w) :
    s.IsDefault env (s.key, w) :=
  ⟨rfl, ⟨_, hdefault, hv env⟩, hw⟩

theorem freshOrigin_defaults :
    List.Forall₂ (fun s m => Section.IsDefault s env m)
      [⟨"source", valueDefault (.string "template"), true, ovlKeyValue⟩,
        ⟨"name", valueDefault (.string "notprovided"), true, ovlKeyValue⟩,
        ⟨"format", valueDefault (.string "json"), true, ovlKeyValue⟩,
        ⟨"created", nowDefault, true, ovlTimeStamp⟩,
        ⟨"rawdata", valueDefault (.array []), true, ovlFixedList ovlStringKeyValue⟩]
      (freshOrigin env) := by
  refine .cons ?_ (.cons ?_ (.cons ?_ (.cons (created_isDefault env) (.cons ?_ .nil))))
  all_goals exact isDefault_of_rfl env rfl (fun _ => rfl) fun _ => rfl

theorem freshBookkeeping_defaults :
    List.Forall₂ (fun s m => Section.IsDefault s env m) bookkeepingSections
      (freshBookkeeping env) := by
  refine .cons ?_ (.cons ?_ (.cons ?_ (.cons (created_isDefault env) .nil)))
  all_goals exact isDefault_of_rfl env rfl (fun _ => rfl) fun _ => rfl

theorem freshRecord_defaults :
    List.Forall₂ (fun s m => Section.IsDefault s env m) recordSections (freshRecord env) := by
  have horigin := overlayObject_defaults (freshOrigin_defaults env) (by decide)
  have hbookkeeping := overlayObject_defaults (freshBookkeeping_defaults env) (by decide)
  refine .cons ?_ (.cons ?_ (.cons ⟨rfl, ⟨_, rfl, horigin.1⟩, horigin.2⟩ (.cons ?_ (.cons ?_
    (.cons ?_ (.cons ?_ (.cons ⟨rfl, ⟨_, rfl, hbookkeeping.1⟩, hbookkeeping.2⟩
      (.cons ⟨rfl, ⟨_, rfl, rfl⟩, fun _ => rfl⟩ (.cons ?_ (.cons ?_ (.cons ?_ (.cons ?_ (.cons ?_
        .nil)))))))))))))
  all_goals exact isDefault_of_rfl env rfl (fun _ => rfl) fun _ => rfl

theorem ovlDatabaseRecord_empty : ovlDatabaseRecord env [] = .ok (freshRecord env) := by
  rw [ovlDatabaseRecord,
    applySections_defaults (freshRecord_defaults env) recordSections_nodup (by simp)]
  rfl

theorem accepted_freshRecord : Accepted (freshRecord env) :=
  accepted_iff.2 (holds_defaults (freshRecord_defaults env) recordSections_nodup)

end Fresh

/-! ## Data -/

/-- The record that is made from data alone. -/
def dataRecord (env : Environment) (data : Object) : Object :=
  set "document" (.object (payloadSection data)) (freshRecord env)

section Data

variable (env : Environment) (data : Object)

theorem accepted_dataRecord : Accepted (dataRecord env data) := by
  have haccepts : ovlDocument.Accepts (.object (payloadSection data)) :=
    fun env => ovlDocument_payloadSection env data
  exact (accepted_freshRecord env).set_section
    (s := ⟨"document", valueDefault (.object []), false, ovlDocument⟩)
    (by simp [recordSections]) haccepts

theorem writable_dataRecord : Writable (dataRecord env data) := rfl

/-- Data in the format `json` always become a record. -/
theorem createFromData_data (refresh : Environment) :
    createFromData env refresh [("data", .object data)] = .ok (dataRecord env data) := by
  have hsection : lookup "document" (freshRecord env) = some (.object (payloadSection [])) := rfl
  have himported : set "document" (.object (set "data" (.object data) (payloadSection [])))
      (freshRecord env) = dataRecord env data := rfl
  rw [createFromData, ovlDatabaseRecord_empty]
  simp only [bind, Except.bind]
  rw [importUserData_wrapped hsection, himported]
  exact accepted_dataRecord env data refresh

end Data

/-! ## The write of data -/

/-- The record with the options of its write. -/
def optionRecord (clock : Clock) (options : ManageDocumentOperation) (data : Object) : Object :=
  builderEdits (dataRecord (clock 0) data) (optionEdits (clock.drop 4) options)

/-- The document that is filed under the id generated for it. -/
def filedData (clock : Clock) (options : ManageDocumentOperation) (data : Object) : Object :=
  set "_id" (.object [("$oid", .string (clock 9).providerOid)]) (optionRecord clock options data)

def dataPayload (clock : Clock) (options : ManageDocumentOperation) (data : Object) : Value :=
  .object
    [("document", .object (optionRecord clock options data)),
      ("filter", options.queryFilterToJsonData),
      ("collection", .string options.collection.text)]

section Write

variable (clock : Clock) (options : ManageDocumentOperation) (data : Object)

theorem optionRecord_effects :
    OptionEffects (clock.drop 4) options (dataRecord (clock 0) data)
      (optionRecord clock options data) :=
  optionEdits_effects _ options (accepted_dataRecord _ data) (writable_dataRecord _ data)

theorem accepted_optionRecord : Accepted (optionRecord clock options data) :=
  (optionRecord_effects clock options data).kept.accepted

theorem writable_optionRecord : Writable (optionRecord clock options data) :=
  (optionRecord_effects clock options data).kept.writable (writable_dataRecord _ data)

theorem writable_filedData : Writable (filedData clock options data) := by
  rw [Writable, filedData, isReadonlyOrDeleted_congr (lookup_set_of_ne (by decide) _ _)]
  exact writable_optionRecord clock options data

theorem placed_filedData :
    Placed options.collection.text (clock 9).providerOid (filedData clock options data) where
  accepted := (accepted_optionRecord clock options data).set_section idSection_mem
    (ovlId_accepts_iff.2 rfl)
  id := lookup_set_self _ _ _
  collection := by
    rw [filedData, lookup_set_of_ne (by decide),
      (optionRecord_effects clock options data).collection]
  oid_valid := (clock 9).oid_valid _ (by simp)

theorem lookup_filedData {k : String} (hk : k ≠ "_id") :
    lookup k (filedData clock options data) = lookup k (optionRecord clock options data) :=
  lookup_set_of_ne hk _ _

theorem entitySection_filedData :
    lookup "entities" (filedData clock options data) =
      some (.array [stamped (clock 7) options.entity.text]) := by
  rw [lookup_filedData clock options data (by decide),
    (optionRecord_effects clock options data).entities [] rfl]
  rfl

theorem documentEntities_filedData :
    documentEntities (filedData clock options data) = [options.entity.text] := by
  rw [documentEntities, sectionEntries, entitySection_filedData]
  rfl

theorem payload_filedData :
    lookup "document" (filedData clock options data) = some (.object (payloadSection data)) ∧
      lookup "payload" (filedData clock options data) = none := by
  have hothers := (optionRecord_effects clock options data).others
  rw [lookup_filedData clock options data (by decide), hothers "document" (by decide),
    lookup_filedData clock options data (by decide), hothers "payload" (by decide)]
  exact ⟨lookup_set_self _ _ _, rfl⟩

theorem version_filedData :
    lookup "version" (filedData clock options data) = some (.string options.version.text) := by
  rw [lookup_filedData clock options data (by decide),
    (optionRecord_effects clock options data).version]

theorem entriesNamed_stamped (env : Environment) {name : String} (hname : name ≠ "") :
    EntriesNamed [stamped env name] := by
  intro entry hentry
  rw [List.mem_singleton] at hentry
  exact ⟨name, by rw [hentry]; rfl, hname⟩

/-- What is filed can be indexed. -/
theorem indexable_filedData (hrun : options.run = notprovided) :
    Indexable (filedData clock options data) := by
  have heffects := optionRecord_effects clock options data
  have hassigned : EntriesAssigned [stamped (clock 4) options.configuration.text] := by
    have hnone : EntriesAssigned [] := by simp [EntriesAssigned]
    exact hnone.addNamed (clock 4) _ options.configuration.text_ne
  have haliases : lookup "aliases" (filedData clock options data) =
      some (.object [("active", .array []), ("history", .array [])]) := by
    rw [lookup_filedData clock options data (by decide), heffects.others "aliases" (by decide)]
    rfl
  have hconfigurations : lookup "configurations" (filedData clock options data) =
      some (.array [stamped (clock 4) options.configuration.text]) := by
    rw [lookup_filedData clock options data (by decide), heffects.configurations [] rfl]
    rfl
  have hruns : lookup "runs" (filedData clock options data) = some (.array []) := by
    rw [lookup_filedData clock options data (by decide), heffects.runs [] rfl, if_pos hrun]
  have hnone : EntriesNamed [] := by simp [EntriesNamed]
  exact ⟨{
    version := options.version.text
    configurations := _
    entities := _
    aliases := _
    active := []
    runs := []
    version_lookup := version_filedData clock options data
    configurations_lookup := hconfigurations
    entities_lookup := entitySection_filedData clock options data
    aliases_lookup := haliases
    active_lookup := rfl
    runs_lookup := hruns
    version_ne := options.version.text_ne
    configurations_assigned := hassigned
    entities_named := entriesNamed_stamped (clock 7) options.entity.text_ne
    active_named := hnone
    runs_named := hnone }⟩

theorem writePayload_data
    (c : Conversions) (hformat : options.format = .json) (hstore : options.operation = "store") :
    writePayload c clock options (.json (.object data)) =
      .ok (dataPayload clock options data, .json (.object data)) := by
  have hconfirm : confirm
      (options.operation = "store" || options.operation = "overwritedocument") = .ok () := by
    simp [hstore]
  have hwritable : isReadonlyOrDeleted (dataRecord (clock 0) data) = .ok false :=
    writable_dataRecord _ data
  have habsent : lookup "payload" (optionRecord clock options data) = none := by
    rw [(optionRecord_effects clock options data).others "payload" (by decide)]
    rfl
  have hvalue := (accepted_optionRecord clock options data).payload_value habsent "document"
  rw [writePayload, hconfirm]
  simp only [bind, Except.bind]
  rw [if_neg (by simp)]
  simp only [draftDocument.eq_def, hformat, wrapData, draftFromData, createFromData_data, bind,
    Except.bind, applyOptions, hwritable]
  simp only [insertPayload, Bool.false_eq_true, if_false]
  rw [show builderEdits (dataRecord (clock 0) data) (optionEdits (clock.drop 4) options) =
    optionRecord clock options data from rfl, hvalue]
  rfl

/-- The write is that of a new document, under the id generated for it. -/
theorem writeRequest_data
    {filter : Object} (hfilter : options.queryFilterToJsonData = .object filter)
    (hid : lookup "_id" filter = none) :
    ∃ request, writeRequest (clock 9) (dataPayload clock options data) = .ok request ∧
      request.collection = options.collection.text ∧
      request.oid = (clock 9).providerOid ∧ request.isNew = true ∧
      request.userDocument = optionRecord clock options data ∧
      request.document = filedData clock options data := by
  have heffects := optionRecord_effects clock options data
  have haccepted := accepted_optionRecord clock options data
  have hwritable := writable_optionRecord clock options data
  have hdocument : findChildDocument "document" (dataPayload clock options data) =
      .ok (.object (optionRecord clock options data)) :=
    findChildDocument_eq_ok.2 ⟨_, _, rfl, rfl, rfl⟩
  have hwriteFilter : writeFilter (dataPayload clock options data) = filter := by
    apply writeFilter_of_lookup
    rw [hfilter]
    rfl
  have hne := options.collection.text_ne
  have hcollection : writeCollectionName (dataPayload clock options data)
      (optionRecord clock options data) filter = .ok options.collection.text := by
    have hchild : childText "collection" (.object (optionRecord clock options data)) =
        .ok options.collection.text := childText_of_lookup (by decide) heffects.collection
    have hconfirm : confirm (options.collection.text ≠ "") = .ok () := by simp [hne]
    simp only [writeCollectionName, hchild, Except.toOption, Option.getD_some, if_neg hne, bind,
      Except.bind, hconfirm]
  have hprovided : providedOid filter = none := by
    simp [providedOid, childText_of_absent hid, bind, Except.bind, Except.toOption]
  have hoid : writeOid (clock 9) filter = (clock 9).providerOid := by
    simp [writeOid, hprovided]
  have hoid_ne := ((clock 9).oid_valid (clock 9).providerOid (by simp)).1
  have hplaced := placed_filedData clock options data
  obtain ⟨old, hold⟩ := haccepted.normalRecord.id
  have hset : set "_id" (.object [("$oid", .string (clock 9).providerOid)])
      (optionRecord clock options data) = filedData clock options data := rfl
  have hrecord : recordToWrite (clock 9) (clock 9).providerOid options.collection.text
      (optionRecord clock options data) = filedData clock options data := by
    rw [recordToWrite_eq, toId, builderEdit_setObjectID _ hwritable hold, hset,
      builderEdit_setCollection hplaced.accepted.normalRecord (writable_filedData _ _ _)
        hplaced.collection hne, if_pos rfl]
  refine ⟨⟨options.collection.text, true, (clock 9).providerOid, optionRecord clock options data,
    filedData clock options data, hoid_ne⟩, ?_, rfl, rfl, rfl, rfl, rfl⟩
  simp only [writeRequest, hdocument, hwriteFilter, hcollection, bind, Except.bind,
    Value.getObject, hoid, hoid_ne, dite_false, haccepted (clock 9), hprovided,
    Option.isNone_none, hrecord]

end Write

end ArtdaqDatabase
