import ArtdaqDatabase.JsonDocumentBuilder

/-!
# Accepted records

A record is accepted when its overlay takes it as it is, at every time.  It stays
accepted when a section gets a value that its own overlay takes as it is, and
when the update log grows.
-/

namespace ArtdaqDatabase

open OrderedTable InPlaceUpdate

def Accepted (record : Object) : Prop :=
  ∀ env, ovlDatabaseRecord env record = .ok record

theorem accepted_iff {record : Object} :
    Accepted record ↔ ∀ s ∈ recordSections, s.Holds record :=
  applySections_accepts_iff recordSections_nodup

theorem overlayObject_accepts_object
    {sections : List Section} {v : Value} (haccepts : (overlayObject sections).Accepts v) :
    ∃ o, v = .object o := by
  obtain ⟨o, -, hv, -, -⟩ := overlayObject_eq_ok.1 (haccepts exampleEnvironment)
  exact ⟨o, hv⟩

theorem ovlFixedList_accepts_array
    {element : Overlay} {v : Value} (haccepts : (ovlFixedList element).Accepts v) :
    ∃ xs, v = .array xs ∧ ∀ x ∈ xs, element.Accepts x := by
  have hv := haccepts exampleEnvironment
  simp only [ovlFixedList, bind_eq_ok, getArray_eq_ok] at hv
  obtain ⟨xs, rfl, -⟩ := hv
  exact ⟨xs, rfl, ovlFixedList_accepts_iff.1 haccepts⟩

/-! ## Sections of an accepted record -/

section Sections

variable {record : Object}

theorem Accepted.set_section
    (haccepted : Accepted record) {s : Section} (hs : s ∈ recordSections) {v : Value}
    (hv : s.normalize.Accepts v) :
    Accepted (set s.key v record) :=
  accepted_iff.2 (holds_set recordSections_nodup (accepted_iff.1 haccepted) hs hv)

/-- The section of a list of entries. -/
def listSection (key : String) (element : Overlay) : Section :=
  ⟨key, valueDefault (.array []), false, ovlFixedList element⟩

theorem Accepted.list
    (haccepted : Accepted record) {key : String} {element : Overlay}
    (hsection : listSection key element ∈ recordSections) :
    ∃ entries, lookup key record = some (.array entries) ∧
      ∀ entry ∈ entries, element.Accepts entry := by
  obtain ⟨⟨v, hlookup, hv⟩, -⟩ := accepted_iff.1 haccepted _ hsection
  obtain ⟨entries, rfl, hentries⟩ := ovlFixedList_accepts_array hv
  exact ⟨entries, hlookup, hentries⟩

theorem Accepted.set_list
    (haccepted : Accepted record) {key : String} {element : Overlay}
    (hsection : listSection key element ∈ recordSections) {entries : List Value}
    (hentries : ∀ entry ∈ entries, element.Accepts entry) :
    Accepted (set key (.array entries) record) :=
  haccepted.set_section hsection (ovlFixedList_accepts_iff.2 hentries)

theorem Accepted.bookkeeping (haccepted : Accepted record) :
    ∃ b, lookup "bookkeeping" record = some (.object b) ∧
      ∀ s ∈ bookkeepingSections, s.Holds b := by
  obtain ⟨⟨v, hlookup, hv⟩, -⟩ := accepted_iff.1 haccepted
    ⟨"bookkeeping", valueDefault (.object []), false, ovlBookkeeping⟩ (by simp [recordSections])
  obtain ⟨b, rfl⟩ := overlayObject_accepts_object hv
  exact ⟨b, hlookup, (overlayObject_accepts_iff (by decide)).1 hv⟩

theorem Accepted.set_bookkeeping
    (haccepted : Accepted record) {b : Object} (hb : ∀ s ∈ bookkeepingSections, s.Holds b) :
    Accepted (set "bookkeeping" (.object b) record) :=
  haccepted.set_section
    (s := ⟨"bookkeeping", valueDefault (.object []), false, ovlBookkeeping⟩)
    (by simp [recordSections]) ((overlayObject_accepts_iff (by decide)).2 hb)

theorem updates_of_holds {b : Object} (hb : ∀ s ∈ bookkeepingSections, s.Holds b) :
    ∃ updates, lookup "updates" b = some (.array updates) ∧
      ∀ entry ∈ updates, ovlUpdate.Accepts entry := by
  obtain ⟨⟨v, hlookup, hv⟩, -⟩ :=
    hb ⟨"updates", valueDefault (.array []), true, ovlFixedList ovlUpdate⟩
      (by simp [bookkeepingSections])
  obtain ⟨updates, rfl, hupdates⟩ := ovlFixedList_accepts_array hv
  exact ⟨updates, hlookup, hupdates⟩

end Sections

/-! ## The update log -/

/-- The bookkeeping gains entries of the update log and is otherwise the same. -/
def LogExtends (record record' : Object) : Prop :=
  ∃ b updates entries, lookup "bookkeeping" record = some (.object b) ∧
    lookup "updates" b = some (.array updates) ∧
    lookup "bookkeeping" record' =
      some (.object (set "updates" (.array (updates ++ entries)) b))

theorem LogExtends.refl {record : Object} (haccepted : Accepted record) :
    LogExtends record record := by
  obtain ⟨b, hb, hholds⟩ := haccepted.bookkeeping
  obtain ⟨updates, hupdates, -⟩ := updates_of_holds hholds
  refine ⟨b, updates, [], hb, hupdates, ?_⟩
  rw [List.append_nil, set_of_lookup hupdates, hb]

theorem LogExtends.trans
    {record record' record'' : Object}
    (hfirst : LogExtends record record') (hsecond : LogExtends record' record'') :
    LogExtends record record'' := by
  obtain ⟨b, updates, entries, hb, hupdates, hb'⟩ := hfirst
  obtain ⟨b', updates', entries', hb'', hupdates', hlast⟩ := hsecond
  rw [hb', Option.some.injEq, Value.object.injEq] at hb''
  subst hb''
  rw [lookup_set_self, Option.some.injEq, Value.array.injEq] at hupdates'
  subst hupdates'
  refine ⟨b, updates, entries ++ entries', hb, hupdates, ?_⟩
  rw [hlast, set_set, List.append_assoc]

theorem LogExtends.isReadonlyOrDeleted_eq
    {record record' : Object} (hlog : LogExtends record record') :
    isReadonlyOrDeleted record' = isReadonlyOrDeleted record := by
  obtain ⟨b, updates, entries, hb, -, hb'⟩ := hlog
  have hflag : ∀ flag, flag ≠ "updates" →
      boolAt flag (set "updates" (.array (updates ++ entries)) b) = boolAt flag b := by
    intro flag hflag
    simp only [boolAt, valueAt, lookup_set_of_ne hflag]
  have hof : bookkeepingOf record = .ok b := objectAt_eq_ok.2 hb
  have hof' : bookkeepingOf record' = .ok (set "updates" (.array (updates ++ entries)) b) :=
    objectAt_eq_ok.2 hb'
  simp only [isReadonlyOrDeleted, hof, hof', bind, Except.bind, hflag _ (by decide : "isreadonly" ≠ "updates"), hflag _ (by decide : "isdeleted" ≠ "updates")]

/-- The edit keeps the record accepted and writes only to the log. -/
structure Kept (record record' : Object) : Prop where
  accepted : Accepted record'
  log : LogExtends record record'

theorem Kept.refl {record : Object} (haccepted : Accepted record) : Kept record record :=
  ⟨haccepted, LogExtends.refl haccepted⟩

theorem Kept.trans
    {record record' record'' : Object} (hfirst : Kept record record')
    (hsecond : Kept record' record'') :
    Kept record record'' :=
  ⟨hsecond.accepted, hfirst.log.trans hsecond.log⟩

theorem Kept.writable {record record' : Object} (hkept : Kept record record')
    (hwritable : Writable record) :
    Writable record' := by
  rw [Writable, hkept.log.isReadonlyOrDeleted_eq]
  exact hwritable

theorem kept_set_section
    {record : Object} (haccepted : Accepted record) {s : Section} (hs : s ∈ recordSections)
    (hkey : s.key ≠ "bookkeeping") {v : Value} (hv : s.normalize.Accepts v) :
    Kept record (set s.key v record) := by
  refine ⟨haccepted.set_section hs hv, ?_⟩
  obtain ⟨b, updates, entries, hb, hupdates, hb'⟩ := LogExtends.refl haccepted
  refine ⟨b, updates, entries, hb, hupdates, ?_⟩
  rw [lookup_set_of_ne hkey.symm, hb']

/-- The record with one more entry in its update log. -/
def withUpdate (entry : Value) (record : Object) : Object :=
  match bookkeepingOf record with
  | .ok b =>
      match arrayAt "updates" b with
      | .ok updates =>
          set "bookkeeping" (.object (set "updates" (.array (updates ++ [entry])) b)) record
      | .error _ => record
  | .error _ => record

theorem lookup_withUpdate {k : String} (hk : k ≠ "bookkeeping") (entry : Value)
    (record : Object) :
    lookup k (withUpdate entry record) = lookup k record := by
  unfold withUpdate
  split
  · split
    · exact lookup_set_of_ne hk _ _
    · rfl
  · rfl

theorem kept_withUpdate
    {record : Object} (haccepted : Accepted record) {entry : Value}
    (hentry : ovlUpdate.Accepts entry) :
    Kept record (withUpdate entry record) := by
  obtain ⟨b, hb, hholds⟩ := haccepted.bookkeeping
  obtain ⟨updates, hupdates, haccepts⟩ := updates_of_holds hholds
  have hof : bookkeepingOf record = .ok b := objectAt_eq_ok.2 hb
  have hlist : arrayAt "updates" b = .ok updates := arrayAt_eq_ok.2 hupdates
  have hrecord : withUpdate entry record =
      set "bookkeeping" (.object (set "updates" (.array (updates ++ [entry])) b)) record := by
    simp only [withUpdate, hof, hlist]
  rw [hrecord]
  constructor
  · apply haccepted.set_bookkeeping
    refine holds_set (by decide) hholds
      (s := ⟨"updates", valueDefault (.array []), true, ovlFixedList ovlUpdate⟩)
      (by simp [bookkeepingSections]) (ovlFixedList_accepts_iff.2 fun x hx => ?_)
    rcases List.mem_append.1 hx with hx | hx
    · exact haccepts x hx
    · rw [List.mem_singleton] at hx
      rw [hx]
      exact hentry
  · exact ⟨b, updates, [entry], hb, hupdates, lookup_set_self _ _ _⟩

theorem Writable.isreadonly
    {record b : Object} (hwritable : Writable record) (hof : bookkeepingOf record = .ok b) :
    boolAt "isreadonly" b = .ok false := by
  simp only [Writable, isReadonlyOrDeleted, hof, bind_eq_ok, Except.ok.injEq] at hwritable
  obtain ⟨b', hb', flag, hflag, hrest⟩ := hwritable
  subst hb'
  cases flag with
  | false => exact hflag
  | true => simp at hrest

theorem postUpdate_run
    {record : Object} (haccepted : Accepted record) (hwritable : Writable record)
    {env : Environment} {event : String} {what : Value}
    (hentry : ovlUpdate.Accepts (updateEntry env event what)) :
    postUpdate env event what record =
      .ok () (withUpdate (updateEntry env event what) record) := by
  obtain ⟨b, hb, hholds⟩ := haccepted.bookkeeping
  obtain ⟨updates, hupdates, haccepts⟩ := updates_of_holds hholds
  have hof : bookkeepingOf record = .ok b := objectAt_eq_ok.2 hb
  have hlist : arrayAt "updates" b = .ok updates := arrayAt_eq_ok.2 hupdates
  have hreadonly : boolAt "isreadonly" b = .ok false := hwritable.isreadonly hof
  have hall : ∀ x ∈ updates ++ [updateEntry env event what], ovlUpdate.Accepts x := by
    intro x hx
    rcases List.mem_append.1 hx with hx | hx
    · exact haccepts x hx
    · rw [List.mem_singleton] at hx
      rw [hx]
      exact hentry
  have hoverlay := ovlFixedList_accepts_iff.2 hall env
  have hrecord : withUpdate (updateEntry env event what) record =
      set "bookkeeping" (.object (set "updates"
        (.array (updates ++ [updateEntry env event what])) b)) record := by
    simp only [withUpdate, hof, hlist]
  rw [postUpdate, bind_run (fetch_ok hof), bind_run (lift_run hreadonly _),
    if_neg (by simp)]
  refine (bind_run (lift_run hlist _)).trans ((bind_run (write_run _ _)).trans ?_)
  rw [bind_run (lift_run hoverlay _), write_run, set_set, hrecord]

end ArtdaqDatabase
