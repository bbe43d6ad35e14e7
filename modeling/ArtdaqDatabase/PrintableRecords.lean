import ArtdaqDatabase.JsonDocumentBuilder
import ArtdaqDatabase.JsonWriter
import ArtdaqDatabase.KeptInvariants

/-!
# Records that can be printed

A tree that was read has names and texts that the writer may print as they are.  The
overlays put only such texts into it, and an operation of the builder moves values
about and adds timestamps, so that the record of any sequence of operations can be
printed and read back.
-/

namespace ArtdaqDatabase

open OrderedTable InPlaceUpdate InterruptedRemoval GuardedRun

/-! ## Parts of a printable tree -/

theorem printable_string {text : String} (htext : isRawText text.toList = true) :
    (Value.string text).Printable :=
  htext

theorem valuesPrintable_append
    {values more : List Value} (hvalues : valuesPrintable values) (hmore : valuesPrintable more) :
    valuesPrintable (values ++ more) := by
  rw [valuesPrintable_iff] at *
  intro v hv
  rcases List.mem_append.1 hv with hv | hv
  · exact hvalues v hv
  · exact hmore v hv

theorem gives_getObject {v : Value} (hv : v.Printable) : Gives membersPrintable v.getObject := by
  intro o ho
  rw [getObject_eq_ok] at ho
  rwa [ho] at hv

theorem gives_getArray {v : Value} (hv : v.Printable) : Gives valuesPrintable v.getArray := by
  intro values hvalues
  rw [getArray_eq_ok] at hvalues
  rwa [hvalues] at hv

theorem gives_getString {v : Value} (hv : v.Printable) :
    Gives (fun text => isRawText text.toList = true) v.getString := by
  intro text htext
  rw [getString_eq_ok] at htext
  rwa [htext] at hv

section Members

variable {key : String} {o : Object} (ho : membersPrintable o)
include ho

theorem gives_valueAt : Gives Value.Printable (valueAt key o) := by
  intro v hv
  exact printable_of_lookup ho (valueAt_eq_ok.1 hv)

theorem gives_objectAt : Gives membersPrintable (objectAt key o) :=
  (gives_valueAt ho).bind fun _ => gives_getObject

theorem gives_arrayAt : Gives valuesPrintable (arrayAt key o) :=
  (gives_valueAt ho).bind fun _ => gives_getArray

theorem gives_stringAt : Gives (fun text => isRawText text.toList = true) (stringAt key o) :=
  (gives_valueAt ho).bind fun _ => gives_getString

end Members

theorem gives_findChildValue {path : List String} {v : Value} (hv : v.Printable) :
    Gives Value.Printable (findChildValue path v) := by
  induction path generalizing v with
  | nil => exact Gives.ok hv
  | cons token path ih =>
      cases v with
      | object o =>
          rw [findChildValue]
          cases hlookup : lookup token o with
          | none => exact Gives.error _
          | some child => exact ih (printable_of_lookup hv hlookup)
      | _ => exact Gives.error _

theorem gives_findChild {name : String} {v : Value} (hname : isRawText name.toList = true)
    (hv : v.Printable) : Gives Value.Printable (findChild name v) := by
  refine (gives_findChildValue hv).bind fun found hfound => Gives.ok ?_
  exact ⟨hname, hfound, True.intro⟩

/-! ## Overlays -/

/-- The texts that a call reads from outside have neither quotes nor lone escapes. -/
structure RawEnvironment (env : Environment) : Prop where
  timestamp : isRawText env.timestamp.toList = true
  oldTimestamp : ∀ s t, env.oldTimestamp s = some t → isRawText t.toList = true
  oids : ∀ oid ∈ [env.recordOid, env.newOid, env.providerOid], isRawText oid.toList = true

theorem exampleEnvironment_raw : RawEnvironment exampleEnvironment where
  timestamp := by decide
  oldTimestamp := by simp [exampleEnvironment]
  oids := by decide

/-- The overlay makes no text that cannot be printed. -/
def Overlay.KeepsPrintable (f : Overlay) : Prop :=
  ∀ env v, RawEnvironment env → v.Printable → Gives Value.Printable (f env v)

structure Section.KeepsPrintable (s : Section) : Prop where
  key : isRawText s.key.toList = true
  default : ∀ d, s.default = some d → ∀ env, RawEnvironment env → (d env).Printable
  normalize : s.normalize.KeepsPrintable

theorem keepsPrintable_ovlKeyValue : Overlay.KeepsPrintable ovlKeyValue :=
  fun _ _ _ hv => Gives.ok hv

theorem keepsPrintable_ovlStringKeyValue : Overlay.KeepsPrintable ovlStringKeyValue := by
  intro env v _ hv w hw
  obtain ⟨s, rfl, rfl⟩ := ovlStringKeyValue_eq_ok.1 hw
  split
  · exact printable_string (by decide)
  · exact hv

theorem keepsPrintable_ovlTimeStamp : Overlay.KeepsPrintable ovlTimeStamp := by
  intro env v henv hv w hw
  obtain ⟨s, t, rfl, ht, rfl⟩ := ovlTimeStamp_eq_ok.1 hw
  unfold confirmIso8601Timestamp at ht
  split at ht
  · simp at ht
  · rwa [← Except.ok.inj ht]
  · split at ht
    · rename_i u hu
      rw [← Except.ok.inj ht]
      exact henv.oldTimestamp s u hu
    · simp at ht

theorem keepsPrintable_ovlAssigned : Overlay.KeepsPrintable ovlAssigned :=
  fun env v henv hv => (keepsPrintable_ovlTimeStamp env v henv hv).bind
    fun w hw => keepsPrintable_ovlTimeStamp env w henv hw

theorem keepsPrintable_ovlFixedList {element : Overlay} (helement : element.KeepsPrintable) :
    Overlay.KeepsPrintable (ovlFixedList element) := by
  intro env v henv hv
  refine (gives_getArray hv).bind fun entries hentries => ?_
  refine (Gives.mapM (R := Value.Printable) fun entry hentry => ?_).bind fun kept hkept => ?_
  · exact helement env entry henv (valuesPrintable_iff.1 hentries entry hentry)
  · exact Gives.ok (valuesPrintable_iff.2 hkept)

theorem Section.KeepsPrintable.apply
    {s : Section} (hs : s.KeepsPrintable) {env : Environment} (henv : RawEnvironment env)
    {o : Object} (ho : membersPrintable o) : Gives membersPrintable (s.apply env o) := by
  have hfill : membersPrintable (s.fill env o) := by
    unfold Section.fill
    split
    · rename_i d hd
      split
      · exact membersPrintable_set ho hs.key (hs.default d hd env henv)
      · exact ho
    · exact ho
  refine (Gives.trivial _).bind fun _ _ => (gives_valueAt hfill).bind fun v hv => ?_
  refine (hs.normalize env v henv hv).bind fun w hw => Gives.ok ?_
  exact membersPrintable_set hfill hs.key hw

theorem gives_applySections
    {sections : List Section} (hsections : ∀ s ∈ sections, s.KeepsPrintable) {env : Environment}
    (henv : RawEnvironment env) {o : Object} (ho : membersPrintable o) :
    Gives membersPrintable (applySections sections env o) :=
  Gives.foldlM (fun _ ho s hs => (hsections s hs).apply henv ho) ho

theorem keepsPrintable_overlayObject
    {sections : List Section} (hsections : ∀ s ∈ sections, s.KeepsPrintable) :
    Overlay.KeepsPrintable (overlayObject sections) := by
  intro env v henv hv
  cases v with
  | object o => exact (gives_applySections hsections henv hv).bind fun o' ho' => Gives.ok ho'
  | _ => exact Gives.error _

theorem nowDefault_printable {d : Environment → Value} (hd : nowDefault = some d)
    (env : Environment) (henv : RawEnvironment env) : (d env).Printable := by
  rw [← Option.some.inj hd]
  exact henv.timestamp

theorem valueDefault_printable {v : Value} (hv : v.Printable) {d : Environment → Value}
    (hd : valueDefault v = some d) (env : Environment) (_ : RawEnvironment env) :
    (d env).Printable := by
  rw [← Option.some.inj hd]
  exact hv

theorem keepsPrintable_none {key : String} {unique : Bool} {f : Overlay}
    (hkey : isRawText key.toList = true) (hf : f.KeepsPrintable) :
    Section.KeepsPrintable ⟨key, none, unique, f⟩ :=
  ⟨hkey, fun d hd => by simp at hd, hf⟩

theorem keepsPrintable_now {key : String} {unique : Bool} {f : Overlay}
    (hkey : isRawText key.toList = true) (hf : f.KeepsPrintable) :
    Section.KeepsPrintable ⟨key, nowDefault, unique, f⟩ :=
  ⟨hkey, fun _ => nowDefault_printable, hf⟩

theorem keepsPrintable_value {key : String} {unique : Bool} {f : Overlay} {v : Value}
    (hkey : isRawText key.toList = true) (hf : f.KeepsPrintable) (hv : v.Printable) :
    Section.KeepsPrintable ⟨key, valueDefault v, unique, f⟩ :=
  ⟨hkey, fun _ => valueDefault_printable hv, hf⟩

theorem keepsPrintable_ovlKeyValueTimeStamp (hasRemoved : Bool) :
    Overlay.KeepsPrintable (ovlKeyValueTimeStamp hasRemoved) := by
  apply keepsPrintable_overlayObject
  intro s hs
  rw [keyValueSections, List.mem_append] at hs
  rcases hs with hs | hs
  · simp only [List.mem_cons, List.not_mem_nil, or_false] at hs
    rcases hs with rfl | rfl
    · exact keepsPrintable_none (by decide) keepsPrintable_ovlKeyValue
    · exact keepsPrintable_now (by decide) keepsPrintable_ovlAssigned
  · cases hasRemoved with
    | false => simp at hs
    | true =>
        rw [if_pos rfl, List.mem_singleton] at hs
        rw [hs]
        exact keepsPrintable_now (by decide) keepsPrintable_ovlKeyValue

theorem keepsPrintable_ovlUpdate : Overlay.KeepsPrintable ovlUpdate := by
  apply keepsPrintable_overlayObject
  intro s hs
  simp only [updateSections, List.mem_cons, List.not_mem_nil, or_false] at hs
  rcases hs with rfl | rfl
  · exact keepsPrintable_none (by decide) keepsPrintable_ovlTimeStamp
  · exact keepsPrintable_none (by decide) (keepsPrintable_ovlKeyValueTimeStamp false)

theorem keepsPrintable_ovlDocument : Overlay.KeepsPrintable ovlDocument := by
  apply keepsPrintable_overlayObject
  intro s hs
  simp only [List.mem_cons, List.not_mem_nil, or_false] at hs
  rcases hs with rfl | rfl | rfl
  · exact keepsPrintable_value (by decide) keepsPrintable_ovlKeyValue True.intro
  · exact keepsPrintable_value (by decide) keepsPrintable_ovlKeyValue True.intro
  · exact keepsPrintable_value (by decide)
      (keepsPrintable_ovlFixedList keepsPrintable_ovlKeyValue) True.intro

theorem keepsPrintable_ovlOrigin : Overlay.KeepsPrintable ovlOrigin := by
  apply keepsPrintable_overlayObject
  intro s hs
  simp only [List.mem_cons, List.not_mem_nil, or_false] at hs
  rcases hs with rfl | rfl | rfl | rfl | rfl
  · exact keepsPrintable_value (by decide) keepsPrintable_ovlKeyValue
      (printable_string (by decide))
  · exact keepsPrintable_value (by decide) keepsPrintable_ovlKeyValue
      (printable_string (by decide))
  · exact keepsPrintable_value (by decide) keepsPrintable_ovlKeyValue
      (printable_string (by decide))
  · exact keepsPrintable_now (by decide) keepsPrintable_ovlTimeStamp
  · exact keepsPrintable_value (by decide)
      (keepsPrintable_ovlFixedList keepsPrintable_ovlStringKeyValue) True.intro

theorem keepsPrintable_ovlBookkeeping : Overlay.KeepsPrintable ovlBookkeeping := by
  apply keepsPrintable_overlayObject
  intro s hs
  simp only [bookkeepingSections, List.mem_cons, List.not_mem_nil, or_false] at hs
  rcases hs with rfl | rfl | rfl | rfl
  · exact keepsPrintable_value (by decide) keepsPrintable_ovlKeyValue True.intro
  · exact keepsPrintable_value (by decide) keepsPrintable_ovlKeyValue True.intro
  · exact keepsPrintable_value (by decide)
      (keepsPrintable_ovlFixedList keepsPrintable_ovlUpdate) True.intro
  · exact keepsPrintable_now (by decide) keepsPrintable_ovlTimeStamp

theorem keepsPrintable_ovlId : Overlay.KeepsPrintable ovlId := by
  apply keepsPrintable_overlayObject
  intro s hs
  rw [idSections, List.mem_singleton] at hs
  subst hs
  refine ⟨by decide, fun d hd env henv => ?_, keepsPrintable_ovlKeyValue⟩
  rw [← Option.some.inj hd]
  exact henv.oids _ (by simp)

theorem keepsPrintable_ovlAliases : Overlay.KeepsPrintable ovlAliases := by
  have hlist := keepsPrintable_ovlFixedList (keepsPrintable_ovlKeyValueTimeStamp true)
  apply keepsPrintable_overlayObject
  intro s hs
  simp only [aliasesSections, List.mem_cons, List.not_mem_nil, or_false] at hs
  rcases hs with rfl | rfl
  · exact keepsPrintable_value (by decide) hlist True.intro
  · exact keepsPrintable_value (by decide) hlist True.intro

theorem keepsPrintable_recordSections : ∀ s ∈ recordSections, s.KeepsPrintable := by
  have hstring := keepsPrintable_ovlStringKeyValue
  have hplain := keepsPrintable_ovlFixedList keepsPrintable_ovlKeyValue
  have hstamped := keepsPrintable_ovlFixedList (keepsPrintable_ovlKeyValueTimeStamp false)
  intro s hs
  simp only [recordSections, List.mem_cons, List.not_mem_nil, or_false] at hs
  rcases hs with rfl | rfl | rfl | rfl | rfl | rfl | rfl | rfl | rfl | rfl | rfl | rfl |
    rfl | rfl
  · exact keepsPrintable_value (by decide) keepsPrintable_ovlDocument True.intro
  · exact keepsPrintable_value (by decide) hplain True.intro
  · exact keepsPrintable_value (by decide) keepsPrintable_ovlOrigin True.intro
  · exact keepsPrintable_value (by decide) hstring (printable_string (by decide))
  · exact keepsPrintable_value (by decide) hstamped True.intro
  · exact keepsPrintable_value (by decide) hstamped True.intro
  · exact keepsPrintable_value (by decide) hstring (printable_string (by decide))
  · exact keepsPrintable_value (by decide) keepsPrintable_ovlBookkeeping True.intro
  · exact keepsPrintable_value (by decide) keepsPrintable_ovlId True.intro
  · exact keepsPrintable_value (by decide) hstring (printable_string (by decide))
  · exact keepsPrintable_value (by decide) keepsPrintable_ovlAliases True.intro
  · exact keepsPrintable_value (by decide) hstamped True.intro
  · exact keepsPrintable_value (by decide) hplain True.intro
  · exact keepsPrintable_value (by decide) hstring (printable_string (by decide))

/-- The record of a printable document is printable. -/
theorem gives_ovlDatabaseRecord
    {env : Environment} (henv : RawEnvironment env) {document : Object}
    (hdocument : membersPrintable document) :
    Gives membersPrintable (ovlDatabaseRecord env document) :=
  gives_applySections keepsPrintable_recordSections henv hdocument

/-! ## Operations of the builder -/

section Edits

variable {env : Environment} (henv : RawEnvironment env)

theorem ensures_whenWritable {edit : RecordM Unit}
    (hedit : Ensures membersPrintable (fun _ => True) edit) :
    Ensures membersPrintable (fun _ => True) (whenWritable edit) :=
  (Ensures.fetch fun _ _ => Gives.trivial _).bind fun _ _ => Ensures.ite (Ensures.throw _) hedit

theorem ensures_withOverlay
    {overlaid : Except Failure Value} {edit : Value → RecordM Unit}
    (hoverlaid : Gives Value.Printable overlaid)
    (hedit : ∀ ovl, ovl.Printable → Ensures membersPrintable (fun _ => True) (edit ovl)) :
    Ensures membersPrintable (fun _ => True) (withOverlay overlaid edit) :=
  (Ensures.lift hoverlaid).bind hedit

theorem ensures_writeMember {key : String} (hkey : isRawText key.toList = true) {v : Value}
    (hv : v.Printable) :
    Ensures membersPrintable (fun _ => True) (write (set key v) : RecordM Unit) :=
  Ensures.write fun _ ho => membersPrintable_set ho hkey hv

theorem ensures_setFlag {flag : String} (hflag : isRawText flag.toList = true) :
    Ensures membersPrintable (fun _ => True) (setFlag flag) := by
  refine (Ensures.fetch fun _ ho => gives_objectAt ho).bind fun bookkeeping hbookkeeping => ?_
  refine (Ensures.lift (Gives.trivial _)).bind fun _ _ => ensures_writeMember (by decide) ?_
  exact membersPrintable_set hbookkeeping hflag True.intro

theorem ensures_fixedListWipe {key : String} (hkey : isRawText key.toList = true) :
    Ensures membersPrintable (fun _ => True) (fixedListWipe key) :=
  (Ensures.fetch fun _ _ => Gives.trivial _).bind fun _ _ =>
    ensures_writeMember hkey True.intro

theorem ensures_eraseNamed
    {update : Value → RecordM Unit} {oldEntry : Value} {entries : List Value}
    (hupdate : ∀ v, v.Printable → Ensures membersPrintable (fun _ => True) (update v))
    (hentries : valuesPrintable entries) :
    Ensures membersPrintable valuesPrintable (eraseNamed update oldEntry entries) := by
  have hkept : (Value.array (removeIf (isNamedAs oldEntry) entries).1).Printable := by
    rw [valuesPrintable_iff] at hentries
    exact valuesPrintable_iff.2 fun v hv => hentries v (mem_of_mem_removeIf hv)
  refine (hupdate _ hkept).bind fun _ _ => (Ensures.lift (Gives.trivial _)).bind fun _ _ => ?_
  refine Ensures.check <| (Ensures.lift (Gives.trivial _)).bind fun _ _ => ?_
  exact Ensures.pure hkept

include henv

theorem updateEntry_printable
    {event : String} (hevent : isRawText event.toList = true) {what : Value}
    (hwhat : what.Printable) : (updateEntry env event what).Printable := by
  cases what with
  | object o => exact ⟨by decide, hevent, by decide, henv.timestamp, by decide, hwhat, True.intro⟩
  | _ =>
      refine ⟨by decide, hevent, by decide, henv.timestamp, by decide, ?_, True.intro⟩
      exact ⟨by decide, hwhat, by decide, henv.timestamp, True.intro⟩

theorem ensures_postUpdate
    {event : String} (hevent : isRawText event.toList = true) {what : Value}
    (hwhat : what.Printable) :
    Ensures membersPrintable (fun _ => True) (postUpdate env event what) := by
  refine (Ensures.fetch fun _ ho => gives_objectAt ho).bind fun bookkeeping hbookkeeping => ?_
  refine (Ensures.lift (Gives.trivial _)).bind fun _ _ => Ensures.check ?_
  refine (Ensures.lift (gives_arrayAt hbookkeeping)).bind fun updates hupdates => ?_
  have hlog : (Value.array (updates ++ [updateEntry env event what])).Printable :=
    valuesPrintable_append hupdates ⟨updateEntry_printable henv hevent hwhat, True.intro⟩
  have hwrite : ∀ v : Value, v.Printable → Ensures membersPrintable (fun _ => True)
      (write (set "bookkeeping" (.object (set "updates" v bookkeeping))) : RecordM Unit) :=
    fun v hv => ensures_writeMember (v := .object _) (by decide)
      (membersPrintable_set hbookkeeping (by decide) hv)
  refine (hwrite _ hlog).bind fun _ _ => ?_
  refine (Ensures.lift (keepsPrintable_ovlFixedList keepsPrintable_ovlUpdate env _ henv hlog)).bind
    fun v hv => ?_
  exact hwrite v hv

theorem gives_stampRemoved {oldEntry : Value} (hentry : oldEntry.Printable) :
    Gives Value.Printable (stampRemoved env oldEntry) :=
  (gives_getObject hentry).bind fun _ ho =>
    Gives.ok (membersPrintable_set ho (by decide) henv.timestamp)

section Lists

variable {key : String} (hkey : isRawText key.toList = true) {element : Overlay}
  (helement : element.KeepsPrintable) {entry : Value} (hentry : entry.Printable)
include hkey helement hentry

theorem ensures_fixedListAdd :
    Ensures membersPrintable (fun _ => True) (fixedListAdd env key element entry) := by
  refine (Ensures.fetch fun _ ho => gives_arrayAt ho).bind fun entries hentries => ?_
  have hmore : (Value.array (entries ++ [entry])).Printable :=
    valuesPrintable_append hentries ⟨hentry, True.intro⟩
  refine (Ensures.lift (Gives.trivial _)).bind fun _ _ => Ensures.ite (Ensures.pure True.intro) ?_
  refine (ensures_writeMember hkey hmore).bind fun _ _ => ?_
  refine (Ensures.lift (keepsPrintable_ovlFixedList helement env _ henv hmore)).bind fun v hv => ?_
  exact ensures_writeMember hkey hv

theorem ensures_fixedListRemove :
    Ensures membersPrintable Value.Printable (fixedListRemove env key element entry) := by
  refine (Ensures.fetch fun _ ho => gives_arrayAt ho).bind fun entries hentries => ?_
  refine Ensures.ite (Ensures.pure hentry) ?_
  refine (ensures_eraseNamed (fun _ hv => ensures_writeMember hkey hv) hentries).bind
    fun kept hkept => ?_
  refine (Ensures.lift (gives_stampRemoved henv hentry)).bind fun stamped hstamped => ?_
  refine (Ensures.lift (keepsPrintable_ovlFixedList helement env (.array kept) henv hkept)).bind
    fun v hv => ?_
  exact (ensures_writeMember hkey hv).bind fun _ _ => Ensures.pure hstamped

theorem ensures_addToList {event : String} (hevent : isRawText event.toList = true) :
    Ensures membersPrintable (fun _ => True) (addToList env event key element entry) :=
  ensures_whenWritable ((ensures_fixedListAdd henv hkey helement hentry).bind fun _ _ =>
    ensures_postUpdate henv hevent hentry)

theorem ensures_removeFromList {event : String} (hevent : isRawText event.toList = true) :
    Ensures membersPrintable (fun _ => True) (removeFromList env event key element entry) :=
  ensures_whenWritable ((ensures_fixedListRemove henv hkey helement hentry).bind fun _ hold =>
    ensures_postUpdate henv hevent hold)

end Lists

omit henv in
theorem ensures_setAliases {key : String} (hkey : isRawText key.toList = true) {v : Value}
    (hv : v.Printable) :
    Ensures membersPrintable (fun _ => True) (setAliases key v) :=
  (Ensures.fetch fun _ ho => gives_objectAt ho).bind fun _ haliases =>
    ensures_writeMember (v := .object _) (by decide) (membersPrintable_set haliases hkey hv)

section Aliases

variable {entry : Value} (hentry : entry.Printable)
include hentry

theorem ensures_movableListAdd :
    Ensures membersPrintable (fun _ => True) (movableListAdd env entry) := by
  have hlist := keepsPrintable_ovlFixedList (keepsPrintable_ovlKeyValueTimeStamp true)
  refine (Ensures.fetch fun _ ho => gives_objectAt ho).bind fun aliases haliases => ?_
  refine (Ensures.lift (gives_arrayAt haliases)).bind fun active hactive => ?_
  have hmore : (Value.array (active ++ [entry])).Printable :=
    valuesPrintable_append hactive ⟨hentry, True.intro⟩
  refine (Ensures.lift (Gives.trivial _)).bind fun _ _ => Ensures.ite (Ensures.pure True.intro) ?_
  refine (ensures_setAliases (by decide) hmore).bind fun _ _ => ?_
  exact (Ensures.lift (hlist env _ henv hmore)).bind fun _ hv => ensures_setAliases (by decide) hv

theorem ensures_movableListRemove :
    Ensures membersPrintable Value.Printable (movableListRemove env entry) := by
  have hlist := keepsPrintable_ovlFixedList (keepsPrintable_ovlKeyValueTimeStamp true)
  refine (Ensures.fetch fun _ ho => gives_objectAt ho).bind fun aliases haliases => ?_
  refine (Ensures.lift (gives_arrayAt haliases)).bind fun active hactive => ?_
  refine (ensures_eraseNamed (fun _ hv => ensures_setAliases (by decide) hv) hactive).bind
    fun kept hkept => ?_
  refine (Ensures.lift (hlist env (.array kept) henv hkept)).bind fun v hv => ?_
  refine (ensures_setAliases (by decide) hv).bind fun _ _ => ?_
  refine (Ensures.lift (gives_arrayAt haliases)).bind fun history hhistory => ?_
  refine (Ensures.lift (gives_stampRemoved henv hentry)).bind fun stamped hstamped => ?_
  have hmore : (Value.array (history ++ [stamped])).Printable :=
    valuesPrintable_append hhistory ⟨hstamped, True.intro⟩
  refine (ensures_setAliases (by decide) hmore).bind fun _ _ => ?_
  refine (Ensures.lift (hlist env _ henv hmore)).bind fun w hw => ?_
  exact (ensures_setAliases (by decide) hw).bind fun _ _ => Ensures.pure hstamped

end Aliases

theorem ensures_setText
    {event key : String} (hevent : isRawText event.toList = true)
    (hkey : isRawText key.toList = true) {text : Value} (htext : text.Printable) :
    Ensures membersPrintable (fun _ => True) (setText env event key text) := by
  refine ensures_whenWritable <| (Ensures.fetch fun _ _ => Gives.trivial _).bind fun _ _ => ?_
  refine (Ensures.lift (gives_getString htext)).bind fun new hnew => ?_
  refine Ensures.ite (Ensures.pure True.intro) ?_
  refine (ensures_writeMember hkey (printable_string hnew)).bind fun _ _ => ?_
  exact ensures_postUpdate henv hevent (printable_string hnew)

theorem ensures_recordNewId : Ensures membersPrintable (fun _ => True) (recordNewId env) := by
  refine (Ensures.fetch fun _ ho => gives_objectAt ho).bind fun id hid => ?_
  have hnew : (Value.object (set "$oid" (.string env.newOid) id)).Printable :=
    membersPrintable_set hid (by decide) (printable_string (henv.oids _ (by simp)))
  exact (ensures_writeMember (by decide) hnew).bind fun _ _ => Ensures.lift (Gives.trivial _)

end Edits

/-- What the operation is given can be printed. -/
def BuilderOperation.Printable : BuilderOperation → Prop
  | .addAlias v | .removeAlias v | .addConfiguration v | .removeConfiguration v | .addEntity v
  | .removeEntity v | .addRun v | .setVersion v | .setCollection v | .setObjectID v => v.Printable
  | .removeAllConfigurations | .removeAllEntities | .newObjectID | .markReadonly
  | .markDeleted => True

/-- One operation of the builder. -/
theorem ensures_perform
    {env : Environment} (henv : RawEnvironment env) {op : BuilderOperation} (hop : op.Printable) :
    Ensures membersPrintable (fun _ => True) (op.perform env) := by
  have hstamped := keepsPrintable_ovlKeyValueTimeStamp
  cases op with
  | addAlias v =>
      refine ensures_withOverlay (hstamped true env v henv hop) fun _ hovl => ?_
      exact ensures_whenWritable ((ensures_movableListAdd henv hovl).bind fun _ _ =>
        ensures_postUpdate henv (by decide) hovl)
  | removeAlias v =>
      refine ensures_withOverlay (hstamped true env v henv hop) fun _ hovl => ?_
      exact ensures_whenWritable ((ensures_movableListRemove henv hovl).bind fun _ hold =>
        ensures_postUpdate henv (by decide) hold)
  | addConfiguration v | addEntity v | addRun v =>
      exact ensures_withOverlay (hstamped false env v henv hop) fun _ hovl =>
        ensures_addToList henv (by decide) (hstamped false) hovl (by decide)
  | removeConfiguration v | removeEntity v =>
      exact ensures_withOverlay (hstamped false env v henv hop) fun _ hovl =>
        ensures_removeFromList henv (by decide) (hstamped false) hovl (by decide)
  | removeAllConfigurations | removeAllEntities => exact ensures_fixedListWipe (by decide)
  | setVersion v =>
      refine ensures_withOverlay ((gives_findChildValue hop).bind fun w hw =>
        keepsPrintable_ovlStringKeyValue env w henv hw) fun _ hovl => ?_
      exact ensures_setText henv (by decide) (by decide) hovl
  | setCollection v =>
      refine ensures_withOverlay (((gives_findChild (by decide) hop).bind fun _ hfound =>
        gives_findChildValue hfound).bind fun w hw =>
          keepsPrintable_ovlStringKeyValue env w henv hw) fun _ hovl => ?_
      exact ensures_setText henv (by decide) (by decide) hovl
  | setObjectID v =>
      refine ensures_withOverlay ((gives_findChildValue hop).bind fun w hw =>
        keepsPrintable_ovlId env w henv hw) fun _ hovl => ?_
      exact ensures_whenWritable ((Ensures.fetch fun _ _ => Gives.trivial _).bind fun _ _ =>
        ensures_writeMember (by decide) hovl)
  | newObjectID => exact ensures_recordNewId henv
  | markReadonly => exact ensures_whenWritable (ensures_setFlag (by decide))
  | markDeleted => exact ensures_setFlag (by decide)

theorem membersPrintable_builderEdit
    {env : Environment} (henv : RawEnvironment env) {op : BuilderOperation} (hop : op.Printable)
    {record : Object} (hrecord : membersPrintable record) :
    membersPrintable (builderEdit env op record) :=
  (ensures_perform henv hop).after hrecord

theorem membersPrintable_builderEdits
    {ops : List (Environment × BuilderOperation)}
    (hops : ∀ p ∈ ops, RawEnvironment p.1 ∧ p.2.Printable) {record : Object}
    (hrecord : membersPrintable record) : membersPrintable (builderEdits record ops) := by
  induction ops generalizing record with
  | nil => exact hrecord
  | cons p ops ih =>
      have hfirst := hops p (by simp)
      exact ih (fun q hq => hops q (List.mem_cons_of_mem _ hq))
        (membersPrintable_builderEdit hfirst.1 hfirst.2 hrecord)

end ArtdaqDatabase
