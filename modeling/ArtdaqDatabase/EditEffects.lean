import ArtdaqDatabase.AcceptedRecords

/-!
# What an edit leaves

On an accepted record that is neither readonly nor deleted an edit of the builder
either refuses before it writes or runs to its end.  The member that the edit
addresses is a function of its old value; the record stays accepted, and the
bookkeeping gains entries of the update log and nothing else.
-/

namespace ArtdaqDatabase

open OrderedTable InPlaceUpdate InterruptedRemoval

/-! ## Entries -/

theorem keyValue_accepts_iff {hasRemoved : Bool} {o : Object} :
    (ovlKeyValueTimeStamp hasRemoved).Accepts (.object o) ↔
      ∀ s ∈ keyValueSections hasRemoved, s.Holds o :=
  overlayObject_accepts_iff (keyValueSections_nodup hasRemoved)

theorem keyValue_accepts_of_alias {v : Value} (hv : ovlAlias.Accepts v) :
    (ovlKeyValueTimeStamp false).Accepts v := by
  obtain ⟨o, rfl⟩ := overlayObject_accepts_object hv
  apply keyValue_accepts_iff.2
  intro s hs
  apply keyValue_accepts_iff.1 hv
  simp only [keyValueSections, Bool.false_eq_true, if_false, if_true, List.append_nil,
    List.mem_append] at hs ⊢
  exact Or.inl hs

/-- The argument that the options make of a name. -/
def named (name : String) : Value :=
  .object [("name", .string name)]

/-- The entry that the overlay makes of a name. -/
def stamped (env : Environment) (name : String) : Value :=
  .object [("name", .string name), ("assigned", .string env.timestamp)]

def stampedAlias (env : Environment) (name : String) : Value :=
  .object
    [("name", .string name), ("assigned", .string env.timestamp),
      ("removed", .string env.timestamp)]

theorem ovlKeyValueTimeStamp_named (env : Environment) (name : String) :
    ovlKeyValueTimeStamp false env (named name) = .ok (stamped env name) := by
  have hassigned := ovlAssigned_accepts env.timestamp_iso env
  simp [ovlKeyValueTimeStamp, keyValueSections, overlayObject, applySections, named, stamped,
    Section.apply, Section.fill, nowDefault, count, OrderedTable.set, valueAt, lookup, confirm, ovlKeyValue,
    hassigned, bind, Except.bind, pure, Except.pure]

theorem ovlAlias_named (env : Environment) (name : String) :
    ovlAlias env (named name) = .ok (stampedAlias env name) := by
  have hassigned := ovlAssigned_accepts env.timestamp_iso env
  simp [ovlAlias, ovlKeyValueTimeStamp, keyValueSections, overlayObject, applySections, named,
    stampedAlias, Section.apply, Section.fill, nowDefault, count, OrderedTable.set, valueAt, lookup, confirm,
    ovlKeyValue, hassigned, bind, Except.bind, pure, Except.pure]

theorem ovlAlias_stampedAlias (env : Environment) (name : String) :
    ovlAlias.Accepts (stampedAlias env name) := by
  apply keyValue_accepts_iff.2
  intro s hs
  simp only [keyValueSections, if_true, List.cons_append, List.nil_append, List.mem_cons,
    List.not_mem_nil, or_false] at hs
  rcases hs with rfl | rfl | rfl
  · exact ⟨⟨_, rfl, ovlKeyValue_accepts _⟩, fun _ => rfl⟩
  · exact ⟨⟨_, rfl, ovlAssigned_accepts env.timestamp_iso⟩, fun _ => rfl⟩
  · exact ⟨⟨_, rfl, ovlKeyValue_accepts _⟩, fun _ => rfl⟩

theorem ovlKeyValueTimeStamp_stamped (env : Environment) (name : String) :
    (ovlKeyValueTimeStamp false).Accepts (stamped env name) := by
  apply keyValue_accepts_iff.2
  intro s hs
  simp only [keyValueSections, Bool.false_eq_true, if_false, List.append_nil, List.mem_cons,
    List.not_mem_nil, or_false] at hs
  rcases hs with rfl | rfl
  · exact ⟨⟨_, rfl, ovlKeyValue_accepts _⟩, fun _ => rfl⟩
  · exact ⟨⟨_, rfl, ovlAssigned_accepts env.timestamp_iso⟩, fun _ => rfl⟩

/-- An entry that is moved away stays acceptable. -/
theorem stampRemoved_accepts
    {hasRemoved : Bool} {entry : Value} (hentry : (ovlKeyValueTimeStamp hasRemoved).Accepts entry)
    (env : Environment) :
    ∃ entry', stampRemoved env entry = .ok entry' ∧
      (ovlKeyValueTimeStamp hasRemoved).Accepts entry' := by
  obtain ⟨o, rfl⟩ := overlayObject_accepts_object hentry
  refine ⟨.object (set "removed" (.string env.timestamp) o), rfl, ?_⟩
  apply keyValue_accepts_iff.2
  intro s hs
  have hholds := keyValue_accepts_iff.1 hentry s hs
  by_cases hkey : s.key = "removed"
  · have haccepts : s.normalize.Accepts (.string env.timestamp) := by
      cases hasRemoved <;>
        simp only [keyValueSections, Bool.false_eq_true, if_false, if_true, List.cons_append,
          List.nil_append, List.append_nil, List.mem_cons, List.not_mem_nil, or_false] at hs
      · rcases hs with rfl | rfl
        · exact ovlKeyValue_accepts _
        · exact ovlAssigned_accepts env.timestamp_iso
      · rcases hs with rfl | rfl | rfl
        · exact ovlKeyValue_accepts _
        · exact ovlAssigned_accepts env.timestamp_iso
        · exact ovlKeyValue_accepts _
    rw [← hkey]
    exact hholds.set_self haccepts
  · exact hholds.set_of_ne hkey _

theorem updateEntry_accepts
    (env : Environment) (event : String) {what : Value}
    (hwhat : (∃ text, what = .string text) ∨ (ovlKeyValueTimeStamp false).Accepts what) :
    ovlUpdate.Accepts (updateEntry env event what) := by
  have hvalue : ∀ value, (ovlKeyValueTimeStamp false).Accepts value →
      ovlUpdate.Accepts
        (.object [("event", .string event), ("timestamp", .string env.timestamp),
          ("value", value)]) := by
    intro value hvalue
    apply (overlayObject_accepts_iff (by decide)).2
    intro s hs
    simp only [updateSections, List.mem_cons, List.not_mem_nil, or_false] at hs
    rcases hs with rfl | rfl
    · exact ⟨⟨_, rfl, ovlTimeStamp_accepts env.timestamp_iso⟩, fun _ => rfl⟩
    · exact ⟨⟨value, rfl, hvalue⟩, fun _ => rfl⟩
  rcases hwhat with ⟨text, rfl⟩ | hwhat
  · exact hvalue _ (ovlKeyValueTimeStamp_stamped env text)
  · obtain ⟨o, rfl⟩ := overlayObject_accepts_object hwhat
    exact hvalue _ hwhat

/-! ## Lists -/

/-- The list that `add` leaves: names that cannot be compared stop it. -/
def addNamed (entry : Value) (entries : List Value) : List Value :=
  match containsName entry entries with
  | .ok false => entries ++ [entry]
  | _ => entries

/-- The list that `remove` leaves, whether its scan ends or throws. -/
def removeNamed (entry : Value) (entries : List Value) : List Value :=
  (removeIf (isNamedAs entry) entries).1

theorem mem_addNamed {entry x : Value} {entries : List Value}
    (hx : x ∈ addNamed entry entries) :
    x ∈ entries ∨ x = entry := by
  unfold addNamed at hx
  split at hx
  · rwa [List.mem_append, List.mem_singleton] at hx
  · exact Or.inl hx

theorem mem_of_mem_removeNamed {entry x : Value} {entries : List Value}
    (hx : x ∈ removeNamed entry entries) :
    x ∈ entries :=
  mem_of_mem_removeIf hx

/-- The scan of `remove` ends, and takes one entry. -/
def RemovesOne (entry : Value) (entries : List Value) : Prop :=
  (∀ x ∈ entries, answers (isNamedAs entry) x = true) ∧
    entries.countP (taken (isNamedAs entry)) = 1

instance (entry : Value) (entries : List Value) : Decidable (RemovesOne entry entries) :=
  inferInstanceAs (Decidable (_ ∧ _))

theorem length_removeNamed {entry : Value} {entries : List Value}
    (hanswers : ∀ x ∈ entries, answers (isNamedAs entry) x = true) :
    entries.length =
      (removeNamed entry entries).length + entries.countP (taken (isNamedAs entry)) := by
  have hlength := List.length_eq_countP_add_countP (taken (isNamedAs entry)) (l := entries)
  have hkept : (removeNamed entry entries).length =
      entries.countP fun x => !taken (isNamedAs entry) x := by
    rw [removeNamed, removeIf_of_answers hanswers, List.countP_eq_length_filter]
  simp only [Bool.not_eq_true, Bool.decide_eq_false] at hlength
  omega

/-- The checks that `remove` makes after its scan. -/
theorem removesOne_iff {entry : Value} {entries : List Value} :
    RemovesOne entry entries ↔
      (removeIf (isNamedAs entry) entries).2 = .ok () ∧
        entries.length = (removeNamed entry entries).length + 1 := by
  rw [RemovesOne, removeIf_snd_eq_ok_iff]
  refine and_congr_right fun hanswers => ?_
  have hlength := length_removeNamed hanswers
  omega

section Erase

variable {update : Value → RecordM Unit} {entry : Value} {entries : List Value}
  {record record' : Object}

theorem eraseNamed_run
    (hupdate : update (.array (removeNamed entry entries)) record = .ok () record')
    (hone : RemovesOne entry entries) :
    eraseNamed update entry entries record = .ok (removeNamed entry entries) record' := by
  obtain ⟨hscanned, hlength⟩ := removesOne_iff.1 hone
  have hconfirm : confirm (entries.length = (removeNamed entry entries).length + 1) =
      .ok () := by
    simp [hlength]
  rw [eraseNamed]
  refine (bind_run hupdate).trans ((bind_run (lift_run hscanned record')).trans ?_)
  rw [if_neg (by rw [removeNamed] at hlength; omega)]
  exact bind_run (lift_run hconfirm record')

theorem eraseNamed_error
    (hupdate : update (.array (removeNamed entry entries)) record = .ok () record')
    (hnot : ¬ RemovesOne entry entries) :
    ∃ e, eraseNamed update entry entries record = .error e record' := by
  rw [eraseNamed]
  cases hscanned : (removeIf (isNamedAs entry) entries).2 with
  | error e =>
      refine ⟨e, (bind_run hupdate).trans ?_⟩
      exact bind_error (lift_error e record')
  | ok _ =>
      have hlength : entries.length ≠ (removeNamed entry entries).length + 1 :=
        fun h => hnot (removesOne_iff.2 ⟨hscanned, h⟩)
      by_cases hmissing : (removeNamed entry entries).length = entries.length
      · refine ⟨msgMissing, (bind_run hupdate).trans ?_⟩
        refine (bind_run (lift_ok _ record')).trans ?_
        rw [removeNamed] at hmissing
        rw [if_pos hmissing]
        rfl
      · have hconfirm : confirm (entries.length = (removeNamed entry entries).length + 1) =
            .error .confirmFailed := by
          simp [confirm, hlength]
        refine ⟨.confirmFailed, (bind_run hupdate).trans ?_⟩
        refine (bind_run (lift_ok _ record')).trans ?_
        rw [removeNamed] at hmissing
        rw [if_neg hmissing]
        exact bind_error (lift_run_error hconfirm record')

end Erase

theorem whenWritable_run {record : Object} (hwritable : Writable record)
    (edit : RecordM Unit) :
    whenWritable edit record = edit record := by
  rw [whenWritable, bind_run (fetch_ok hwritable)]
  rfl

section Edits

variable {record : Object} (env : Environment)

theorem fixedListAdd_run
    {key : String} {element : Overlay} {entries : List Value} {entry : Value}
    (hlookup : lookup key record = some (.array entries))
    (hentries : ∀ x ∈ entries, element.Accepts x) (hentry : element.Accepts entry) :
    fixedListAdd env key element entry record =
      match containsName entry entries with
      | .ok _ => .ok () (set key (.array (addNamed entry entries)) record)
      | .error e => .error e record := by
  have hlist : arrayAt key record = .ok entries := arrayAt_eq_ok.2 hlookup
  rw [fixedListAdd, bind_run (fetch_ok hlist)]
  cases hfound : containsName entry entries with
  | error e => exact bind_error (lift_error e record)
  | ok found =>
      rw [bind_run (lift_ok found record)]
      cases found with
      | true => simp [addNamed, hfound, set_of_lookup hlookup, pure, EStateM.pure]
      | false =>
          have hall : ∀ x ∈ entries ++ [entry], element.Accepts x := by
            intro x hx
            rcases List.mem_append.1 hx with hx | hx
            · exact hentries x hx
            · rw [List.mem_singleton] at hx
              rw [hx]
              exact hentry
          have hoverlay := ovlFixedList_accepts_iff.2 hall env
          rw [if_neg (by simp)]
          refine (bind_run (write_run _ _)).trans ?_
          rw [bind_run (lift_run hoverlay _), write_run, set_set]
          simp [addNamed, hfound]

/-- What an edit of a list leaves. -/
structure ListEdit (key : String) (f : List Value → List Value) (record record' : Object) :
    Prop where
  kept : Kept record record'
  entries_eq : ∀ entries, lookup key record = some (.array entries) →
    lookup key record' = some (.array (f entries))

theorem addToList_edit
    (haccepted : Accepted record) (hwritable : Writable record) {key : String}
    (hsection : listSection key (ovlKeyValueTimeStamp false) ∈ recordSections)
    (hkey : key ≠ "bookkeeping") {entry : Value}
    (hentry : (ovlKeyValueTimeStamp false).Accepts entry) (event : String) :
    ListEdit key (addNamed entry) record
      (after (addToList env event key (ovlKeyValueTimeStamp false) entry) record) := by
  obtain ⟨entries, hlookup, hentries⟩ := haccepted.list hsection
  have hadd := fixedListAdd_run env hlookup hentries hentry
  have hunique : ∀ entries', lookup key record = some (.array entries') →
      entries' = entries := by
    intro entries' h
    rw [hlookup, Option.some.injEq, Value.array.injEq] at h
    exact h.symm
  rw [addToList, after, whenWritable_run hwritable, ← after]
  cases hfound : containsName entry entries with
  | error e =>
      rw [hfound] at hadd
      rw [after_of_error (bind_error hadd)]
      refine ⟨Kept.refl haccepted, fun entries' h => ?_⟩
      rw [hunique entries' h, hlookup]
      simp [addNamed, hfound]
  | ok found =>
      rw [hfound] at hadd
      have hall : ∀ x ∈ addNamed entry entries, (ovlKeyValueTimeStamp false).Accepts x := by
        intro x hx
        rcases mem_addNamed hx with hx | rfl
        · exact hentries x hx
        · exact hentry
      have hset : Kept record (set key (.array (addNamed entry entries)) record) :=
        kept_set_section haccepted hsection hkey (ovlFixedList_accepts_iff.2 hall)
      have hupdate := updateEntry_accepts env event (Or.inr hentry)
      have hpost := postUpdate_run hset.accepted (hset.writable hwritable) hupdate
      rw [after_bind hadd, after_of_ok hpost]
      refine ⟨hset.trans (kept_withUpdate hset.accepted hupdate), fun entries' h => ?_⟩
      rw [hunique entries' h, lookup_withUpdate hkey, lookup_set_self]

/-- A removal that throws has written its list all the same. -/
theorem fixedListRemove_run
    {key : String} {element : Overlay} {entries : List Value} {entry moved : Value}
    (hlookup : lookup key record = some (.array entries))
    (hentries : ∀ x ∈ entries, element.Accepts x)
    (hmoved : stampRemoved env entry = .ok moved) (hne : entries ≠ []) :
    (RemovesOne entry entries ∧ fixedListRemove env key element entry record =
        .ok moved (set key (.array (removeNamed entry entries)) record)) ∨
      (¬ RemovesOne entry entries ∧ ∃ e, fixedListRemove env key element entry record =
        .error e (set key (.array (removeNamed entry entries)) record)) := by
  have hlist : arrayAt key record = .ok entries := arrayAt_eq_ok.2 hlookup
  let update : Value → RecordM Unit := fun v => write (set key v)
  have hupdate : update (.array (removeNamed entry entries)) record =
      .ok () (set key (.array (removeNamed entry entries)) record) := write_run _ _
  rw [fixedListRemove, bind_run (fetch_ok hlist), if_neg hne]
  by_cases hone : RemovesOne entry entries
  · have hall : ∀ x ∈ removeNamed entry entries, element.Accepts x :=
      fun x hx => hentries x (mem_of_mem_removeNamed hx)
    have hoverlay := ovlFixedList_accepts_iff.2 hall env
    refine Or.inl ⟨hone, (bind_run (eraseNamed_run hupdate hone)).trans ?_⟩
    rw [bind_run (lift_run hmoved _), bind_run (lift_run hoverlay _),
      bind_run (write_run _ _), set_set]
    rfl
  · obtain ⟨e, herror⟩ := eraseNamed_error hupdate hone
    exact Or.inr ⟨hone, e, bind_error herror⟩

/-- A removal ends with the kept list in place, whether it throws or returns. -/
theorem fixedListRemove_spec
    (haccepted : Accepted record) {key : String}
    (hsection : listSection key (ovlKeyValueTimeStamp false) ∈ recordSections)
    (hkey : key ≠ "bookkeeping") {entry : Value}
    (hentry : (ovlKeyValueTimeStamp false).Accepts entry) :
    ∃ record', ListEdit key (removeNamed entry) record record' ∧
      ((∃ e, fixedListRemove env key (ovlKeyValueTimeStamp false) entry record =
          .error e record') ∨
        ∃ entry', (ovlKeyValueTimeStamp false).Accepts entry' ∧
          fixedListRemove env key (ovlKeyValueTimeStamp false) entry record =
            .ok entry' record') := by
  obtain ⟨entries, hlookup, hentries⟩ := haccepted.list hsection
  have hall : ∀ x ∈ removeNamed entry entries, (ovlKeyValueTimeStamp false).Accepts x :=
    fun x hx => hentries x (mem_of_mem_removeNamed hx)
  have hunique : ∀ entries', lookup key record = some (.array entries') →
      entries' = entries := by
    intro entries' h
    rw [hlookup, Option.some.injEq, Value.array.injEq] at h
    exact h.symm
  obtain ⟨moved, hmoved, hacceptsMoved⟩ := stampRemoved_accepts hentry env
  have hedit : ListEdit key (removeNamed entry) record
      (set key (.array (removeNamed entry entries)) record) := by
    refine ⟨kept_set_section haccepted hsection hkey (ovlFixedList_accepts_iff.2 hall),
      fun entries' h => ?_⟩
    rw [hunique entries' h, lookup_set_self]
  by_cases hempty : entries = []
  · have hlist : arrayAt key record = .ok entries := arrayAt_eq_ok.2 hlookup
    have hsame : set key (.array (removeNamed entry entries)) record = record := by
      rw [hempty] at hlookup ⊢
      exact set_of_lookup hlookup
    rw [hsame] at hedit
    refine ⟨record, hedit, Or.inr ⟨entry, hentry, ?_⟩⟩
    rw [fixedListRemove, bind_run (fetch_ok hlist), if_pos hempty]
    rfl
  · refine ⟨_, hedit, ?_⟩
    rcases fixedListRemove_run env hlookup hentries hmoved hempty with ⟨-, hrun⟩ | ⟨-, hrun⟩
    · exact Or.inr ⟨moved, hacceptsMoved, hrun⟩
    · exact Or.inl hrun

theorem removeFromList_edit
    (haccepted : Accepted record) (hwritable : Writable record) {key : String}
    (hsection : listSection key (ovlKeyValueTimeStamp false) ∈ recordSections)
    (hkey : key ≠ "bookkeeping") {entry : Value}
    (hentry : (ovlKeyValueTimeStamp false).Accepts entry) (event : String) :
    ListEdit key (removeNamed entry) record
      (after (removeFromList env event key (ovlKeyValueTimeStamp false) entry) record) := by
  obtain ⟨record', hedit, hrun⟩ := fixedListRemove_spec env haccepted hsection hkey hentry
  rw [removeFromList, after, whenWritable_run hwritable, ← after]
  rcases hrun with ⟨e, hrun⟩ | ⟨entry', hentry', hrun⟩
  · rw [after_of_error (bind_error hrun)]
    exact hedit
  · have hupdate := updateEntry_accepts env event (Or.inr hentry')
    have hpost := postUpdate_run hedit.kept.accepted (hedit.kept.writable hwritable) hupdate
    rw [after_bind hrun, after_of_ok hpost]
    refine ⟨hedit.kept.trans (kept_withUpdate hedit.kept.accepted hupdate), fun entries h => ?_⟩
    rw [lookup_withUpdate hkey]
    exact hedit.entries_eq entries h

/-! ## Aliases -/

theorem Accepted.aliases (haccepted : Accepted record) :
    ∃ o, lookup "aliases" record = some (.object o) ∧ ∀ s ∈ aliasesSections, s.Holds o := by
  obtain ⟨⟨v, hlookup, hv⟩, -⟩ := accepted_iff.1 haccepted
    ⟨"aliases", valueDefault (.object []), false, ovlAliases⟩ (by simp [recordSections])
  obtain ⟨o, rfl⟩ := overlayObject_accepts_object hv
  exact ⟨o, hlookup, (overlayObject_accepts_iff (by decide)).1 hv⟩

theorem aliases_list
    {o : Object} (ho : ∀ s ∈ aliasesSections, s.Holds o) {key : String}
    (hkey : key = "active" ∨ key = "history") :
    ∃ entries, lookup key o = some (.array entries) ∧ ∀ x ∈ entries, ovlAlias.Accepts x := by
  have hs : listSection key ovlAlias ∈ aliasesSections := by
    rcases hkey with rfl | rfl <;> simp [aliasesSections, listSection]
  obtain ⟨⟨v, hlookup, hv⟩, -⟩ := ho _ hs
  obtain ⟨entries, rfl, hentries⟩ := ovlFixedList_accepts_array hv
  exact ⟨entries, hlookup, hentries⟩

theorem holds_set_aliases
    {o : Object} (ho : ∀ s ∈ aliasesSections, s.Holds o) {key : String}
    (hkey : key = "active" ∨ key = "history") {entries : List Value}
    (hentries : ∀ x ∈ entries, ovlAlias.Accepts x) :
    ∀ s ∈ aliasesSections, s.Holds (set key (.array entries) o) := by
  have hs : listSection key ovlAlias ∈ aliasesSections := by
    rcases hkey with rfl | rfl <;> simp [aliasesSections, listSection]
  exact holds_set (by decide) ho hs (ovlFixedList_accepts_iff.2 hentries)

theorem kept_set_aliases
    (haccepted : Accepted record) {o : Object} (ho : ∀ s ∈ aliasesSections, s.Holds o) :
    Kept record (set "aliases" (.object o) record) :=
  kept_set_section haccepted
    (s := ⟨"aliases", valueDefault (.object []), false, ovlAliases⟩)
    (by simp [recordSections]) (by decide) ((overlayObject_accepts_iff (by decide)).2 ho)

theorem setAliases_run
    {o : Object} (hlookup : lookup "aliases" record = some (.object o)) (key : String)
    (entries : Value) :
    setAliases key entries record = .ok () (set "aliases" (.object (set key entries o)) record) := by
  have hobject : objectAt "aliases" record = .ok o := objectAt_eq_ok.2 hlookup
  rw [setAliases, bind_run (fetch_ok hobject), write_run]

/-- The history after the removal of an alias. -/
def movedHistory (entry : Value) (active history : List Value) :
    List Value :=
  match stampRemoved env entry with
  | .ok moved => if RemovesOne entry active then history ++ [moved] else history
  | .error _ => history

/-- What an edit of the aliases leaves. -/
structure AliasEdit
    (f : List Value → List Value) (g : List Value → List Value → List Value)
    (record record' : Object) : Prop where
  kept : Kept record record'
  aliases_eq : ∀ o active history, lookup "aliases" record = some (.object o) →
    lookup "active" o = some (.array active) → lookup "history" o = some (.array history) →
    lookup "aliases" record' = some (.object
      (set "history" (.array (g active history)) (set "active" (.array (f active)) o)))

theorem movableListAdd_run
    {o : Object} (hlookup : lookup "aliases" record = some (.object o)) {active : List Value}
    (hactive : lookup "active" o = some (.array active))
    (hentries : ∀ x ∈ active, ovlAlias.Accepts x) {entry : Value}
    (hentry : ovlAlias.Accepts entry) :
    movableListAdd env entry record =
      match containsName entry active with
      | .ok _ => .ok () (set "aliases"
          (.object (set "active" (.array (addNamed entry active)) o)) record)
      | .error e => .error e record := by
  have hobject : objectAt "aliases" record = .ok o := objectAt_eq_ok.2 hlookup
  have hlist : arrayAt "active" o = .ok active := arrayAt_eq_ok.2 hactive
  rw [movableListAdd, bind_run (fetch_ok hobject), bind_run (lift_run hlist record)]
  cases hfound : containsName entry active with
  | error e => exact bind_error (lift_error e record)
  | ok found =>
      rw [bind_run (lift_ok found record)]
      cases found with
      | true =>
          simp [addNamed, hfound, set_of_lookup hactive, set_of_lookup hlookup, pure,
            EStateM.pure]
      | false =>
          have hadded : addNamed entry active = active ++ [entry] := by
            simp [addNamed, hfound]
          have hall : ∀ x ∈ active ++ [entry], ovlAlias.Accepts x := by
            intro x hx
            rcases List.mem_append.1 hx with hx | hx
            · exact hentries x hx
            · rw [List.mem_singleton] at hx
              rw [hx]
              exact hentry
          have hoverlay := ovlFixedList_accepts_iff.2 hall env
          have hlookup' : lookup "aliases" (set "aliases" (.object (set "active"
              (.array (active ++ [entry])) o)) record) = some (.object (set "active"
              (.array (active ++ [entry])) o)) := lookup_set_self _ _ _
          rw [if_neg (by simp), hadded]
          refine (bind_run (setAliases_run hlookup _ _)).trans ?_
          rw [bind_run (lift_run hoverlay _), setAliases_run hlookup', set_set, set_set]

theorem addAlias_edit
    (haccepted : Accepted record) (hwritable : Writable record) {entry : Value}
    (hentry : ovlAlias.Accepts entry) :
    AliasEdit (addNamed entry) (fun _ history => history) record
      (after (recordAddAlias env entry) record) := by
  obtain ⟨o, hlookup, ho⟩ := haccepted.aliases
  obtain ⟨active, hactive, hentries⟩ := aliases_list ho (Or.inl rfl)
  have hadd := movableListAdd_run env hlookup hactive hentries hentry
  have hsame : ∀ o' active' history, lookup "aliases" record = some (.object o') →
      lookup "active" o' = some (.array active') → lookup "history" o' = some (.array history) →
      ∀ entries, set "history" (.array history) (set "active" (.array entries) o') =
          set "active" (.array entries) o ∧ active' = active := by
    intro o' active' history h hactive' hhistory entries
    rw [hlookup, Option.some.injEq, Value.object.injEq] at h
    subst h
    rw [hactive, Option.some.injEq, Value.array.injEq] at hactive'
    refine ⟨set_of_lookup ?_, hactive'.symm⟩
    rw [lookup_set_of_ne (by decide), hhistory]
  rw [recordAddAlias, after, whenWritable_run hwritable, ← after]
  cases hfound : containsName entry active with
  | error e =>
      rw [hfound] at hadd
      rw [after_of_error (bind_error hadd)]
      refine ⟨Kept.refl haccepted, fun o' active' history h ha hh => ?_⟩
      have heq := hsame o' active' history h ha hh (addNamed entry active)
      rw [heq.2, heq.1, hlookup]
      simp [addNamed, hfound, set_of_lookup hactive]
  | ok found =>
      rw [hfound] at hadd
      have hall : ∀ x ∈ addNamed entry active, ovlAlias.Accepts x := by
        intro x hx
        rcases mem_addNamed hx with hx | rfl
        · exact hentries x hx
        · exact hentry
      have hset := kept_set_aliases haccepted (holds_set_aliases ho (Or.inl rfl) hall)
      have hupdate := updateEntry_accepts env "addAlias"
        (Or.inr (keyValue_accepts_of_alias hentry))
      have hpost := postUpdate_run hset.accepted (hset.writable hwritable) hupdate
      rw [after_bind hadd, after_of_ok hpost]
      refine ⟨hset.trans (kept_withUpdate hset.accepted hupdate),
        fun o' active' history h ha hh => ?_⟩
      have heq := hsame o' active' history h ha hh (addNamed entry active)
      rw [heq.2, heq.1, lookup_withUpdate (by decide), lookup_set_self]

/-- A removal ends with the kept aliases in place; the removed one is in the
history only if it was listed once. -/
theorem movableListRemove_run
    {o : Object} (hlookup : lookup "aliases" record = some (.object o))
    {active history : List Value}
    (hactive : lookup "active" o = some (.array active))
    (hhistory : lookup "history" o = some (.array history))
    (hentries : ∀ x ∈ active, ovlAlias.Accepts x) (hold : ∀ x ∈ history, ovlAlias.Accepts x)
    {entry moved : Value} (hmoved : stampRemoved env entry = .ok moved)
    (hacceptsMoved : ovlAlias.Accepts moved) :
    (RemovesOne entry active ∧ movableListRemove env entry record =
        .ok moved (set "aliases" (.object (set "history" (.array (history ++ [moved]))
          (set "active" (.array (removeNamed entry active)) o))) record)) ∨
      (¬ RemovesOne entry active ∧ ∃ e, movableListRemove env entry record =
        .error e (set "aliases" (.object (set "active" (.array (removeNamed entry active)) o))
          record)) := by
  have hobject : objectAt "aliases" record = .ok o := objectAt_eq_ok.2 hlookup
  have hlist : arrayAt "active" o = .ok active := arrayAt_eq_ok.2 hactive
  have hlistHistory : arrayAt "history" o = .ok history := arrayAt_eq_ok.2 hhistory
  have hupdate := setAliases_run hlookup "active" (.array (removeNamed entry active))
  have hwritten : lookup "aliases"
      (set "aliases" (.object (set "active" (.array (removeNamed entry active)) o)) record) =
      some (.object (set "active" (.array (removeNamed entry active)) o)) :=
    lookup_set_self _ _ _
  rw [movableListRemove, bind_run (fetch_ok hobject), bind_run (lift_run hlist record)]
  by_cases hone : RemovesOne entry active
  · have hkept : ∀ x ∈ removeNamed entry active, ovlAlias.Accepts x :=
      fun x hx => hentries x (mem_of_mem_removeNamed hx)
    have hall := ovlFixedList_accepts_iff.2 hkept env
    have hallHistory : ∀ x ∈ history ++ [moved], ovlAlias.Accepts x := by
      intro x hx
      rcases List.mem_append.1 hx with hx | hx
      · exact hold x hx
      · rw [List.mem_singleton] at hx
        rw [hx]
        exact hacceptsMoved
    refine Or.inl ⟨hone, (bind_run (eraseNamed_run hupdate hone)).trans ?_⟩
    rw [bind_run (lift_run hall _), bind_run (setAliases_run hwritten _ _), set_set, set_set,
      bind_run (lift_run hlistHistory _), bind_run (lift_run hmoved _),
      bind_run (setAliases_run hwritten _ _), set_set,
      bind_run (lift_run (ovlFixedList_accepts_iff.2 hallHistory env) _),
      bind_run (setAliases_run (lookup_set_self _ _ _) _ _), set_set, set_set]
    rfl
  · obtain ⟨e, herror⟩ := eraseNamed_error hupdate hone
    exact Or.inr ⟨hone, e, bind_error herror⟩

theorem movableListRemove_spec
    {o : Object} (hlookup : lookup "aliases" record = some (.object o))
    (ho : ∀ s ∈ aliasesSections, s.Holds o) {active history : List Value}
    (hactive : lookup "active" o = some (.array active))
    (hhistory : lookup "history" o = some (.array history)) {entry : Value}
    (hentry : ovlAlias.Accepts entry) :
    ∃ o', (∀ s ∈ aliasesSections, s.Holds o') ∧
      o' = set "history" (.array (movedHistory env entry active history))
        (set "active" (.array (removeNamed entry active)) o) ∧
      ((∃ e, movableListRemove env entry record =
          .error e (set "aliases" (.object o') record)) ∨
        ∃ entry', ovlAlias.Accepts entry' ∧
          movableListRemove env entry record =
            .ok entry' (set "aliases" (.object o') record)) := by
  obtain ⟨active', hactive', hentries⟩ := aliases_list ho (Or.inl rfl)
  obtain ⟨history', hhistory', hold⟩ := aliases_list ho (Or.inr rfl)
  rw [hactive, Option.some.injEq, Value.array.injEq] at hactive'
  rw [hhistory, Option.some.injEq, Value.array.injEq] at hhistory'
  subst hactive' hhistory'
  obtain ⟨moved, hmoved, hacceptsMoved⟩ := stampRemoved_accepts hentry env
  have hkept : ∀ x ∈ removeNamed entry active, ovlAlias.Accepts x :=
    fun x hx => hentries x (mem_of_mem_removeNamed hx)
  have hheld := holds_set_aliases ho (Or.inl rfl) hkept
  rcases movableListRemove_run env hlookup hactive hhistory hentries hold hmoved
    hacceptsMoved with ⟨hone, hrun⟩ | ⟨hnot, e, hrun⟩
  · have hmovedHistory : movedHistory env entry active history = history ++ [moved] := by
      rw [movedHistory, hmoved]
      exact if_pos hone
    have hallHistory : ∀ x ∈ history ++ [moved], ovlAlias.Accepts x := by
      intro x hx
      rcases List.mem_append.1 hx with hx | hx
      · exact hold x hx
      · rw [List.mem_singleton] at hx
        rw [hx]
        exact hacceptsMoved
    rw [hmovedHistory]
    exact ⟨_, holds_set_aliases hheld (Or.inr rfl) hallHistory, rfl,
      Or.inr ⟨moved, hacceptsMoved, hrun⟩⟩
  · have hmovedHistory : movedHistory env entry active history = history := by
      rw [movedHistory, hmoved]
      exact if_neg hnot
    have hhistoryKept : lookup "history"
        (set "active" (.array (removeNamed entry active)) o) = some (.array history) := by
      rw [lookup_set_of_ne (by decide), hhistory]
    rw [hmovedHistory, set_of_lookup hhistoryKept]
    exact ⟨_, hheld, rfl, Or.inl ⟨e, hrun⟩⟩

theorem removeAlias_edit
    (haccepted : Accepted record) (hwritable : Writable record) {entry : Value}
    (hentry : ovlAlias.Accepts entry) :
    AliasEdit (removeNamed entry) (movedHistory env entry) record
      (after (recordRemoveAlias env entry) record) := by
  obtain ⟨o, hlookup, ho⟩ := haccepted.aliases
  obtain ⟨active, hactive, -⟩ := aliases_list ho (Or.inl rfl)
  obtain ⟨history, hhistory, -⟩ := aliases_list ho (Or.inr rfl)
  obtain ⟨o', ho', heq, hrun⟩ :=
    movableListRemove_spec env hlookup ho hactive hhistory hentry
  have hset := kept_set_aliases haccepted ho'
  have hedit : ∀ record', lookup "aliases" record' = some (.object o') →
      Kept record record' →
      AliasEdit (removeNamed entry) (movedHistory env entry) record record' := by
    intro record' hlookup' hkept
    refine ⟨hkept, fun p active' history' hp ha hh => ?_⟩
    rw [hlookup, Option.some.injEq, Value.object.injEq] at hp
    subst hp
    rw [hactive, Option.some.injEq, Value.array.injEq] at ha
    rw [hhistory, Option.some.injEq, Value.array.injEq] at hh
    rw [hlookup', heq, ha, hh]
  rw [recordRemoveAlias, after, whenWritable_run hwritable, ← after]
  rcases hrun with ⟨e, hrun⟩ | ⟨entry', hentry', hrun⟩
  · rw [after_of_error (bind_error hrun)]
    exact hedit _ (lookup_set_self _ _ _) hset
  · have hupdate := updateEntry_accepts env "removeAlias"
      (Or.inr (keyValue_accepts_of_alias hentry'))
    have hpost := postUpdate_run hset.accepted (hset.writable hwritable) hupdate
    rw [after_bind hrun, after_of_ok hpost]
    refine hedit _ ?_ (hset.trans (kept_withUpdate hset.accepted hupdate))
    rw [lookup_withUpdate (by decide), lookup_set_self]

/-! ## Texts and the id -/

/-- The section of a text. -/
def textSection (key : String) : Section :=
  ⟨key, valueDefault (.string ""), false, ovlStringKeyValue⟩

theorem Accepted.text
    (haccepted : Accepted record) {key : String} (hsection : textSection key ∈ recordSections) :
    ∃ text, lookup key record = some (.string text) := by
  obtain ⟨⟨v, hlookup, hv⟩, -⟩ := accepted_iff.1 haccepted _ hsection
  have hstring : ovlStringKeyValue exampleEnvironment v = .ok v := hv exampleEnvironment
  obtain ⟨text, rfl, -⟩ := ovlStringKeyValue_eq_ok.1 hstring
  exact ⟨text, hlookup⟩

theorem setText_edit
    (haccepted : Accepted record) (hwritable : Writable record) {key : String}
    (hsection : textSection key ∈ recordSections)
    (hkey : key ≠ "bookkeeping") {text : String} (htext : text ≠ "") (event : String) :
    Kept record (after (setText env event key (.string text)) record) ∧
      lookup key (after (setText env event key (.string text)) record) =
        some (.string text) := by
  obtain ⟨old, hlookup⟩ := haccepted.text hsection
  have hstring : stringAt key record = .ok old := stringAt_eq_ok.2 hlookup
  have hnew : (lift (Value.string text).getString : RecordM String) record =
      .ok text record := rfl
  have hset : Kept record (set key (.string text) record) :=
    kept_set_section haccepted hsection hkey (ovlStringKeyValue_accepts htext)
  have hupdate := updateEntry_accepts env event (Or.inl ⟨text, rfl⟩)
  have hpost := postUpdate_run hset.accepted (hset.writable hwritable) hupdate
  rw [setText, after, whenWritable_run hwritable, ← after, after_bind (fetch_ok hstring),
    after_bind hnew]
  by_cases hsame : old = text
  · rw [if_pos hsame]
    rw [hsame] at hlookup
    exact ⟨Kept.refl haccepted, hlookup⟩
  · rw [if_neg hsame]
    have hrun : after (do
        write (set key (.string text))
        postUpdate env event (.string text) : RecordM Unit) record =
        withUpdate (updateEntry env event (.string text)) (set key (.string text) record) := by
      rw [after_bind (write_run _ _), after_of_ok hpost]
    have hgoal := hset.trans (kept_withUpdate hset.accepted hupdate)
    constructor
    · exact hrun ▸ hgoal
    · exact hrun ▸ (by rw [lookup_withUpdate hkey, lookup_set_self])

theorem ovlId_accepts_iff {id : Object} :
    ovlId.Accepts (.object id) ↔ count "$oid" id = 1 := by
  rw [ovlId, overlayObject_accepts_iff (by decide)]
  constructor
  · intro hholds
    exact (hholds _ (List.mem_singleton_self _)).2 rfl
  · intro hcount s hs
    rw [idSections, List.mem_singleton] at hs
    subst hs
    obtain ⟨v, hv⟩ := lookup_isSome_of_count_pos (by omega : 0 < count "$oid" id)
    exact ⟨⟨v, hv, ovlKeyValue_accepts v⟩, fun _ => hcount⟩

/-- The section of the id. -/
def idSection : Section :=
  ⟨"_id", valueDefault (.object []), false, ovlId⟩

theorem idSection_mem : idSection ∈ recordSections := by
  simp [recordSections, idSection]

theorem Accepted.id (haccepted : Accepted record) :
    ∃ id, lookup "_id" record = some (.object id) ∧ count "$oid" id = 1 := by
  obtain ⟨⟨v, hlookup, hv⟩, -⟩ := accepted_iff.1 haccepted _ idSection_mem
  obtain ⟨id, rfl⟩ := overlayObject_accepts_object hv
  exact ⟨id, hlookup, ovlId_accepts_iff.1 hv⟩

theorem after_swapId
    (hwritable : Writable record) {old : Value} (hold : lookup "_id" record = some old)
    (id : Value) :
    after (recordSwapId id) record = set "_id" id record := by
  rw [recordSwapId, after, whenWritable_run hwritable, ← after,
    after_bind (fetch_ok (valueAt_eq_ok.2 hold)), after_of_ok (write_run _ _)]

/-- A new id is written without a look at the flags. -/
theorem newId_edit (haccepted : Accepted record) :
    ∃ id, lookup "_id" record = some (.object id) ∧
      after (recordNewId env) record =
        set "_id" (.object (set "$oid" (.string env.newOid) id)) record ∧
      Kept record (after (recordNewId env) record) := by
  obtain ⟨id, hlookup, hcount⟩ := haccepted.id
  have hobject : objectAt "_id" record = .ok id := objectAt_eq_ok.2 hlookup
  have hafter : after (recordNewId env) record =
      set "_id" (.object (set "$oid" (.string env.newOid) id)) record := by
    rw [recordNewId, after_bind (fetch_ok hobject), after_bind (write_run _ _), after_lift]
  obtain ⟨v, hv⟩ := lookup_isSome_of_count_pos (by omega : 0 < count "$oid" id)
  refine ⟨id, hlookup, hafter, ?_⟩
  rw [hafter]
  apply kept_set_section haccepted idSection_mem (by decide)
  apply ovlId_accepts_iff.2
  rw [count_set_self_of_lookup hv, hcount]

/-! ## Operations of the builder -/

theorem after_withOverlay_ok
    {overlaid : Except Failure Value} {ovl : Value} (hoverlaid : overlaid = .ok ovl)
    (edit : Value → RecordM Unit) (record : Object) :
    after (withOverlay overlaid edit) record = after (edit ovl) record := by
  rw [withOverlay, after_bind (lift_run hoverlaid record)]

theorem entries_section :
    listSection "entities" (ovlKeyValueTimeStamp false) ∈ recordSections ∧
      listSection "configurations" (ovlKeyValueTimeStamp false) ∈ recordSections ∧
      listSection "runs" (ovlKeyValueTimeStamp false) ∈ recordSections := by
  simp [recordSections, listSection, ovlEntity, ovlConfiguration, ovlRun]

section Builder

variable (haccepted : Accepted record) (hwritable : Writable record)
include haccepted hwritable

omit haccepted in
theorem builderEdit_setObjectID
    {old : Value} (hold : lookup "_id" record = some old) (oid : String) :
    builderEdit env (.setObjectID (.object [("_id", .object [("$oid", .string oid)])])) record =
      set "_id" (.object [("$oid", .string oid)]) record := by
  have haccepts : ovlId.Accepts (.object [("$oid", .string oid)]) := ovlId_accepts_iff.2 rfl
  have hoverlaid : (findChildValue ["_id"]
      (.object [("_id", .object [("$oid", .string oid)])]) >>= ovlId env) =
      .ok (.object [("$oid", .string oid)]) := haccepts env
  rw [builderEdit, BuilderOperation.perform, after_withOverlay_ok hoverlaid,
    after_swapId hwritable hold]

variable (name : String)

theorem addOperation_edit
    {op : BuilderOperation} {event key : String}
    (hop : op.perform env = withOverlay (ovlKeyValueTimeStamp false env (named name))
      (addToList env event key (ovlKeyValueTimeStamp false)))
    (hsection : listSection key (ovlKeyValueTimeStamp false) ∈ recordSections)
    (hkey : key ≠ "bookkeeping") :
    ListEdit key (addNamed (stamped env name)) record (builderEdit env op record) := by
  rw [builderEdit, hop, after_withOverlay_ok (ovlKeyValueTimeStamp_named env name)]
  exact addToList_edit env haccepted hwritable hsection hkey
    (ovlKeyValueTimeStamp_stamped env name) event

theorem removeOperation_edit
    {op : BuilderOperation} {event key : String}
    (hop : op.perform env = withOverlay (ovlKeyValueTimeStamp false env (named name))
      (removeFromList env event key (ovlKeyValueTimeStamp false)))
    (hsection : listSection key (ovlKeyValueTimeStamp false) ∈ recordSections)
    (hkey : key ≠ "bookkeeping") :
    ListEdit key (removeNamed (stamped env name)) record (builderEdit env op record) := by
  rw [builderEdit, hop, after_withOverlay_ok (ovlKeyValueTimeStamp_named env name)]
  exact removeFromList_edit env haccepted hwritable hsection hkey
    (ovlKeyValueTimeStamp_stamped env name) event

theorem addEntity_edit :
    ListEdit "entities" (addNamed (stamped env name)) record
      (builderEdit env (.addEntity (named name)) record) :=
  addOperation_edit env haccepted hwritable name rfl entries_section.1 (by decide)

theorem removeEntity_edit :
    ListEdit "entities" (removeNamed (stamped env name)) record
      (builderEdit env (.removeEntity (named name)) record) :=
  removeOperation_edit env haccepted hwritable name rfl entries_section.1 (by decide)

theorem addConfiguration_edit :
    ListEdit "configurations" (addNamed (stamped env name)) record
      (builderEdit env (.addConfiguration (named name)) record) :=
  addOperation_edit env haccepted hwritable name rfl entries_section.2.1 (by decide)

theorem removeConfiguration_edit :
    ListEdit "configurations" (removeNamed (stamped env name)) record
      (builderEdit env (.removeConfiguration (named name)) record) :=
  removeOperation_edit env haccepted hwritable name rfl entries_section.2.1 (by decide)

theorem addRun_edit :
    ListEdit "runs" (addNamed (stamped env name)) record
      (builderEdit env (.addRun (named name)) record) :=
  addOperation_edit env haccepted hwritable name rfl entries_section.2.2 (by decide)

theorem builderAddAlias_edit :
    AliasEdit (addNamed (stampedAlias env name)) (fun _ history => history) record
      (builderEdit env (.addAlias (named name)) record) := by
  rw [builderEdit, BuilderOperation.perform, after_withOverlay_ok (ovlAlias_named env name)]
  exact addAlias_edit env haccepted hwritable (ovlAlias_stampedAlias env name)

theorem builderRemoveAlias_edit :
    AliasEdit (removeNamed (stampedAlias env name))
      (movedHistory env (stampedAlias env name)) record
      (builderEdit env (.removeAlias (named name)) record) := by
  rw [builderEdit, BuilderOperation.perform, after_withOverlay_ok (ovlAlias_named env name)]
  exact removeAlias_edit env haccepted hwritable (ovlAlias_stampedAlias env name)

theorem setVersion_edit (hname : name ≠ "") :
    Kept record (builderEdit env (.setVersion (named name)) record) ∧
      lookup "version" (builderEdit env (.setVersion (named name)) record) =
        some (.string name) := by
  have hoverlaid : (findChildValue ["name"] (named name) >>= ovlStringKeyValue env) =
      .ok (.string name) := ovlStringKeyValue_accepts hname env
  rw [builderEdit, BuilderOperation.perform, after_withOverlay_ok hoverlaid]
  exact setText_edit env haccepted hwritable (by simp [recordSections, textSection])
    (by decide) hname _

theorem setCollection_edit (hname : name ≠ "") :
    Kept record
        (builderEdit env (.setCollection (.object [("collection", .string name)])) record) ∧
      lookup "collection"
        (builderEdit env (.setCollection (.object [("collection", .string name)])) record) =
        some (.string name) := by
  have hoverlaid : (findChild "collection" (.object [("collection", .string name)]) >>=
      findChildValue ["collection"] >>= ovlStringKeyValue env) = .ok (.string name) :=
    ovlStringKeyValue_accepts hname env
  rw [builderEdit, BuilderOperation.perform, after_withOverlay_ok hoverlaid]
  exact setText_edit env haccepted hwritable (by simp [recordSections, textSection])
    (by decide) hname _

end Builder

end Edits

end ArtdaqDatabase
