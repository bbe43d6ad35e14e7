import ArtdaqDatabase.OverlaySections

/-!
# The overlay of a database record

`ovlDatabaseRecord` and the overlays of its sections, with the operations that
edit a record in place.  Every edit but `markDeleted` first asks whether the
record is readonly or deleted; an edit that throws keeps what it has done.
-/

namespace ArtdaqDatabase

open OrderedTable

/-! ## Sections -/

/-- The default of a member that holds the time of its creation. -/
def nowDefault : Option (Environment → Value) :=
  some fun env => .string env.timestamp

def valueDefault (v : Value) : Option (Environment → Value) :=
  some fun _ => v

/-- `ovlKeyValueTimeStamp` attaches a second overlay to `assigned` where it should
attach one to `removed`. -/
def ovlAssigned : Overlay := fun env v =>
  ovlTimeStamp env v >>= ovlTimeStamp env

def keyValueSections (hasRemoved : Bool) : List Section :=
  [⟨"name", none, true, ovlKeyValue⟩, ⟨"assigned", nowDefault, true, ovlAssigned⟩] ++
    if hasRemoved then [⟨"removed", nowDefault, true, ovlKeyValue⟩] else []

def ovlKeyValueTimeStamp (hasRemoved : Bool) : Overlay :=
  overlayObject (keyValueSections hasRemoved)

def ovlEntity : Overlay := ovlKeyValueTimeStamp false
def ovlConfiguration : Overlay := ovlKeyValueTimeStamp false
def ovlRun : Overlay := ovlKeyValueTimeStamp false
def ovlUpdateEntry : Overlay := ovlKeyValueTimeStamp false
def ovlAlias : Overlay := ovlKeyValueTimeStamp true

def updateSections : List Section :=
  [⟨"timestamp", none, true, ovlTimeStamp⟩, ⟨"value", none, true, ovlUpdateEntry⟩]

def ovlUpdate : Overlay :=
  overlayObject updateSections

def ovlDocument : Overlay :=
  overlayObject
    [⟨"data", valueDefault (.object []), false, ovlKeyValue⟩,
      ⟨"metadata", valueDefault (.object []), false, ovlKeyValue⟩,
      ⟨"search", valueDefault (.array []), false, ovlFixedList ovlKeyValue⟩]

def ovlOrigin : Overlay :=
  overlayObject
    [⟨"source", valueDefault (.string "template"), true, ovlKeyValue⟩,
      ⟨"name", valueDefault (.string "notprovided"), true, ovlKeyValue⟩,
      ⟨"format", valueDefault (.string "json"), true, ovlKeyValue⟩,
      ⟨"created", nowDefault, true, ovlTimeStamp⟩,
      ⟨"rawdata", valueDefault (.array []), true, ovlFixedList ovlStringKeyValue⟩]

def bookkeepingSections : List Section :=
  [⟨"isdeleted", valueDefault (.boolean false), false, ovlKeyValue⟩,
    ⟨"isreadonly", valueDefault (.boolean false), false, ovlKeyValue⟩,
    ⟨"updates", valueDefault (.array []), true, ovlFixedList ovlUpdate⟩,
    ⟨"created", nowDefault, true, ovlTimeStamp⟩]

def ovlBookkeeping : Overlay :=
  overlayObject bookkeepingSections

def idSections : List Section :=
  [⟨"$oid", some fun env => .string env.recordOid, true, ovlKeyValue⟩]

def ovlId : Overlay :=
  overlayObject idSections

def aliasesSections : List Section :=
  [⟨"active", valueDefault (.array []), false, ovlFixedList ovlAlias⟩,
    ⟨"history", valueDefault (.array []), false, ovlFixedList ovlAlias⟩]

def ovlAliases : Overlay :=
  overlayObject aliasesSections

/-- The members of `ovlDatabaseRecord`, in the order of their construction. -/
def recordSections : List Section :=
  [⟨"document", valueDefault (.object []), false, ovlDocument⟩,
    ⟨"comments", valueDefault (.array []), false, ovlFixedList ovlKeyValue⟩,
    ⟨"origin", valueDefault (.object []), false, ovlOrigin⟩,
    ⟨"version", valueDefault (.string ""), false, ovlStringKeyValue⟩,
    ⟨"entities", valueDefault (.array []), false, ovlFixedList ovlEntity⟩,
    ⟨"configurations", valueDefault (.array []), false, ovlFixedList ovlConfiguration⟩,
    ⟨"changelog", valueDefault (.string ""), false, ovlStringKeyValue⟩,
    ⟨"bookkeeping", valueDefault (.object []), false, ovlBookkeeping⟩,
    ⟨"_id", valueDefault (.object []), false, ovlId⟩,
    ⟨"collection", valueDefault (.string ""), false, ovlStringKeyValue⟩,
    ⟨"aliases", valueDefault (.object []), false, ovlAliases⟩,
    ⟨"runs", valueDefault (.array []), false, ovlFixedList ovlRun⟩,
    ⟨"attachments", valueDefault (.array []), false, ovlFixedList ovlKeyValue⟩,
    ⟨"configtype", valueDefault (.string ""), false, ovlStringKeyValue⟩]

/-- `ovlDatabaseRecord`: the record that the overlay of a document leaves. -/
def ovlDatabaseRecord (env : Environment) (document : Object) : Except Failure Object :=
  applySections recordSections env document

theorem ovlAssigned_accepts {s : String} (hs : s.toList.head? = some '2') :
    ovlAssigned.Accepts (.string s) := by
  intro env
  rw [ovlAssigned, ovlTimeStamp_accepts hs env]
  exact ovlTimeStamp_accepts hs env

theorem ovlAssigned_normalizes : Overlay.Normalizes ovlAssigned := by
  intro env v w hw env' w' hw'
  simp only [ovlAssigned, bind_eq_ok] at hw hw'
  obtain ⟨u, -, hw⟩ := hw
  obtain ⟨u', hu', hw'⟩ := hw'
  have hnormal := ovlTimeStamp_normalizes env u w hw
  have hfirst := hnormal env' u' hu'
  rw [hfirst.1] at hw'
  refine ⟨(hnormal env' w' hw').1, fun env'' => ?_⟩
  rw [ovlAssigned, hfirst.2 env'']
  exact hfirst.2 env''

theorem keyValueSections_nodup (hasRemoved : Bool) :
    ((keyValueSections hasRemoved).map Section.key).Nodup := by
  cases hasRemoved <;> decide

theorem ovlKeyValueTimeStamp_normalizes (hasRemoved : Bool) :
    Overlay.Normalizes (ovlKeyValueTimeStamp hasRemoved) := by
  apply overlayObject_normalizes (keyValueSections_nodup hasRemoved)
  intro s hs
  cases hasRemoved <;>
    simp only [keyValueSections, Bool.false_eq_true, if_false, if_true, List.cons_append,
      List.nil_append, List.mem_cons, List.not_mem_nil, or_false] at hs
  · rcases hs with rfl | rfl
    · exact ovlKeyValue_normalizes
    · exact ovlAssigned_normalizes
  · rcases hs with rfl | rfl | rfl
    · exact ovlKeyValue_normalizes
    · exact ovlAssigned_normalizes
    · exact ovlKeyValue_normalizes

theorem ovlUpdate_normalizes : Overlay.Normalizes ovlUpdate := by
  apply overlayObject_normalizes (by decide)
  intro s hs
  simp only [updateSections, List.mem_cons, List.not_mem_nil, or_false] at hs
  rcases hs with rfl | rfl
  · exact ovlTimeStamp_normalizes
  · exact ovlKeyValueTimeStamp_normalizes false

theorem ovlDocument_normalizes : Overlay.Normalizes ovlDocument := by
  apply overlayObject_normalizes (by decide)
  intro s hs
  simp only [List.mem_cons, List.not_mem_nil, or_false] at hs
  rcases hs with rfl | rfl | rfl
  · exact ovlKeyValue_normalizes
  · exact ovlKeyValue_normalizes
  · exact ovlFixedList_normalizes ovlKeyValue_normalizes

theorem ovlOrigin_normalizes : Overlay.Normalizes ovlOrigin := by
  apply overlayObject_normalizes (by decide)
  intro s hs
  simp only [List.mem_cons, List.not_mem_nil, or_false] at hs
  rcases hs with rfl | rfl | rfl | rfl | rfl
  · exact ovlKeyValue_normalizes
  · exact ovlKeyValue_normalizes
  · exact ovlKeyValue_normalizes
  · exact ovlTimeStamp_normalizes
  · exact ovlFixedList_normalizes ovlStringKeyValue_normalizes

theorem bookkeepingSections_normalizes :
    ∀ s ∈ bookkeepingSections, s.normalize.Normalizes := by
  intro s hs
  simp only [bookkeepingSections, List.mem_cons, List.not_mem_nil, or_false] at hs
  rcases hs with rfl | rfl | rfl | rfl
  · exact ovlKeyValue_normalizes
  · exact ovlKeyValue_normalizes
  · exact ovlFixedList_normalizes ovlUpdate_normalizes
  · exact ovlTimeStamp_normalizes

theorem ovlId_normalizes : Overlay.Normalizes ovlId := by
  apply overlayObject_normalizes (by decide)
  intro s hs
  rw [idSections, List.mem_singleton] at hs
  subst hs
  exact ovlKeyValue_normalizes

theorem ovlAliases_normalizes : Overlay.Normalizes ovlAliases := by
  apply overlayObject_normalizes (by decide)
  intro s hs
  simp only [aliasesSections, List.mem_cons, List.not_mem_nil, or_false] at hs
  rcases hs with rfl | rfl
  · exact ovlFixedList_normalizes (ovlKeyValueTimeStamp_normalizes true)
  · exact ovlFixedList_normalizes (ovlKeyValueTimeStamp_normalizes true)

theorem recordSections_nodup : (recordSections.map Section.key).Nodup := by
  decide

theorem recordSections_normalizes : ∀ s ∈ recordSections, s.normalize.Normalizes := by
  intro s hs
  simp only [recordSections, List.mem_cons, List.not_mem_nil, or_false] at hs
  rcases hs with rfl | rfl | rfl | rfl | rfl | rfl | rfl | rfl | rfl | rfl | rfl | rfl |
    rfl | rfl
  · exact ovlDocument_normalizes
  · exact ovlFixedList_normalizes ovlKeyValue_normalizes
  · exact ovlOrigin_normalizes
  · exact ovlStringKeyValue_normalizes
  · exact ovlFixedList_normalizes (ovlKeyValueTimeStamp_normalizes false)
  · exact ovlFixedList_normalizes (ovlKeyValueTimeStamp_normalizes false)
  · exact ovlStringKeyValue_normalizes
  · exact overlayObject_normalizes (by decide) bookkeepingSections_normalizes
  · exact ovlId_normalizes
  · exact ovlStringKeyValue_normalizes
  · exact ovlAliases_normalizes
  · exact ovlFixedList_normalizes (ovlKeyValueTimeStamp_normalizes false)
  · exact ovlFixedList_normalizes ovlKeyValue_normalizes
  · exact ovlStringKeyValue_normalizes

end ArtdaqDatabase
