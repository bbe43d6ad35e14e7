import ArtdaqDatabase.EditOutcomes

/-!
# Edits that fail as a whole

The undo of the builder is a stub, so an operation that throws leaves what it has
written.  Additions and setters throw before they write.  A removal erases first and
counts afterwards: it fails as a whole exactly when the requested name is listed at
most once, or when a name that is not a text stops the scan before a value has moved.
-/

namespace ArtdaqDatabase

open OrderedTable InPlaceUpdate InterruptedRemoval

/-! ## Names -/

def memberValue (key : String) : Value → Option Value
  | .object entry => lookup key entry
  | _ => none

/-- The name of an entry, be it a text or not. -/
def nameValue : Value → Option Value :=
  memberValue "name"

def NamedList.names (record : Object) (list : NamedList) : List (Option Value) :=
  (list.entries record).map nameValue

/-- The names are pairwise distinct in each list of the record. -/
def DistinctNames (record : Object) : Prop :=
  ∀ list, (NamedList.names record list).Nodup

/-- A name is added at the end unless it is there; a name is taken off. -/
def LoggedOperation.namesAfter (env : Environment) (op : LoggedOperation) (list : NamedList)
    (names : List (Option Value)) : List (Option Value) :=
  match op.request env with
  | .ok (.add list' entry) =>
      if list = list' ∧ nameValue entry ∉ names then names ++ [nameValue entry] else names
  | .ok (.remove list' entry) =>
      if list = list' then names.filter fun name => name ≠ nameValue entry else names
  | _ => names

section Names

variable {entry : Value} {entries : List Value}

theorem nameValue_of_nameOf {x : Value} {name : String} (hname : nameOf x = .ok name) :
    nameValue x = some (.string name) := by
  obtain ⟨o, rfl, hlookup⟩ := nameOf_eq_ok.1 hname
  exact hlookup

theorem containsName_eq_ok {found : Bool} (hfound : containsName entry entries = .ok found) :
    found = decide (nameValue entry ∈ entries.map nameValue) := by
  induction entries with
  | nil =>
      rw [containsName, Except.ok.injEq] at hfound
      simp [← hfound]
  | cons x rest ih =>
      simp only [containsName, bind_eq_ok] at hfound
      obtain ⟨name, hname, newName, hnewName, hrest⟩ := hfound
      have hx := nameValue_of_nameOf hname
      have hentry := nameValue_of_nameOf hnewName
      by_cases hsame : name = newName
      · rw [if_pos hsame, Except.ok.injEq] at hrest
        simp [← hrest, hx, hentry, hsame]
      · rw [if_neg hsame] at hrest
        have hne : newName ≠ name := fun h => hsame h.symm
        rw [ih hrest]
        simp [hx, hentry, hne]

theorem names_addNamed {found : Bool} (hfound : containsName entry entries = .ok found) :
    (addNamed entry entries).map nameValue =
      if nameValue entry ∉ entries.map nameValue then
        entries.map nameValue ++ [nameValue entry]
      else entries.map nameValue := by
  have hmem := containsName_eq_ok hfound
  rw [addNamed, hfound]
  cases found with
  | true =>
      rw [if_neg (by simpa using hmem)]
  | false =>
      rw [if_pos (by simpa using hmem), List.map_append, List.map_singleton]

theorem taken_isNamedAs {x : Value} (hx : answers (isNamedAs entry) x = true) :
    taken (isNamedAs entry) x = decide (nameValue x = nameValue entry) := by
  have htest := test_of_answers hx
  simp only [isNamedAs, bind_eq_ok, Except.ok.injEq] at htest
  obtain ⟨name, hname, oldName, holdName, htaken⟩ := htest
  rw [← htaken, nameValue_of_nameOf hname, nameValue_of_nameOf holdName]
  simp

theorem names_removeNamed (hanswers : ∀ x ∈ entries, answers (isNamedAs entry) x = true) :
    (removeNamed entry entries).map nameValue =
      (entries.map nameValue).filter fun name => name ≠ nameValue entry := by
  rw [removeNamed, removeIf_of_answers hanswers, List.filter_map]
  refine congrArg (List.map nameValue) (List.filter_congr fun x hx => ?_)
  rw [taken_isNamedAs (hanswers x hx)]
  simp

/-- A removal, whole or not, repeats no name. -/
theorem nodup_removeNamed (hnodup : (entries.map nameValue).Nodup) :
    ((removeNamed entry entries).map nameValue).Nodup := by
  by_cases hanswers : ∀ x ∈ entries, answers (isNamedAs entry) x = true
  · rw [names_removeNamed hanswers]
    exact hnodup.filter _
  · have hperm := (removeIf_perm_of_not_answers hanswers).map nameValue
    exact hperm.nodup_iff.2 hnodup

/-- The requested name is listed at most once; where a name that is not a text stops
the scan, no entry of the requested name is followed by another before it. -/
def CleanRemoval (entry : Value) (entries : List Value) : Prop :=
  if ∀ x ∈ entries, answers (isNamedAs entry) x = true then
    entries.countP (taken (isNamedAs entry)) ≤ 1
  else
    (tested (isNamedAs entry) entries).Pairwise fun x y =>
      taken (isNamedAs entry) x = true → taken (isNamedAs entry) y = true

instance (entry : Value) (entries : List Value) : Decidable (CleanRemoval entry entries) := by
  unfold CleanRemoval
  infer_instance

theorem RemovesOne.clean (hone : RemovesOne entry entries) : CleanRemoval entry entries := by
  rw [CleanRemoval, if_pos hone.1]
  exact hone.2.le

/-- A removal that throws has changed nothing exactly when it is clean. -/
theorem removeNamed_eq_self_iff (hnot : ¬ RemovesOne entry entries) :
    removeNamed entry entries = entries ↔ CleanRemoval entry entries := by
  rw [CleanRemoval]
  by_cases hanswers : ∀ x ∈ entries, answers (isNamedAs entry) x = true
  · have hcount : entries.countP (taken (isNamedAs entry)) ≠ 1 :=
      fun h => hnot ⟨hanswers, h⟩
    rw [if_pos hanswers, removeNamed, removeIf_of_answers hanswers, List.filter_eq_self]
    constructor
    · intro hnone
      have hzero : entries.countP (taken (isNamedAs entry)) = 0 :=
        List.countP_eq_zero.2 fun x hx => by simpa using hnone x hx
      omega
    · intro hle x hx
      have hzero : entries.countP (taken (isNamedAs entry)) = 0 := by omega
      simpa using List.countP_eq_zero.1 hzero x hx
  · rw [if_neg hanswers, removeNamed]
    exact removeIf_eq_self_iff hanswers

end Names

/-! ## Operations -/

/-- An operation that throws leaves the record; otherwise names that are distinct stay
so, with the requested one added or taken off. -/
structure EditsAtomically (env : Environment) (op : LoggedOperation) (record : Object) :
    Prop where
  unchanged : ∀ e record', op.operation.perform env record = .error e record' →
    record' = record
  distinct : DistinctNames record → DistinctNames (builderEdit env op.operation record)
  requested : DistinctNames record →
    ∀ record', op.operation.perform env record = .ok () record' →
      ∀ list, NamedList.names record' list = op.namesAfter env list (NamedList.names record list)

/-- A removal that reaches its list is clean. -/
def RemovesCleanly (env : Environment) (op : LoggedOperation) (record : Object) : Prop :=
  Writable record →
    match op.request env with
    | .ok (.remove list entry) => CleanRemoval entry (list.entries record)
    | _ => True

instance (env : Environment) (op : LoggedOperation) (record : Object) :
    Decidable (RemovesCleanly env op record) := by
  unfold RemovesCleanly
  split <;> infer_instance

section Operations

variable {env : Environment} {op : LoggedOperation} {record record' : Object}
  {list : NamedList} {entry : Value}

theorem names_withUpdate (list : NamedList) (entry : Value) (record : Object) :
    NamedList.names (withUpdate entry record) list = NamedList.names record list := by
  rw [NamedList.names, NamedList.names, entries_withUpdate]

theorem entries_shelve (list list' : NamedList) (moved : Value) (record : Object) :
    list'.entries (list.shelve moved record) = list'.entries record := by
  have hactive : activeAliasEntries record = sectionEntries "active" (aliasesOf record) := by
    unfold activeAliasEntries aliasesOf
    cases lookup "aliases" record with
    | none => rfl
    | some aliases => cases aliases <;> rfl
  cases list with
  | activeAliases =>
      cases list' with
      | activeAliases =>
          rw [NamedList.shelve, NamedList.entries, NamedList.entries, hactive,
            activeAliasEntries, lookup_set_self]
          simp only [sectionEntries, lookup_set_of_ne (by decide : "active" ≠ "history")]
      | _ => simp [NamedList.shelve, NamedList.entries, sectionEntries, lookup_set]
  | _ => rfl

theorem names_setEntries
    (list list' : NamedList) (entries : List Value) (record : Object) :
    NamedList.names (list.setEntries entries record) list' =
      if list' = list then entries.map nameValue else NamedList.names record list' := by
  rw [NamedList.names, entries_setEntries]
  split <;> rfl

theorem distinctNames_setEntries
    (hdistinct : DistinctNames record) {entries : List Value}
    (hentries : (entries.map nameValue).Nodup) :
    DistinctNames (list.setEntries entries record) := by
  intro list'
  rw [names_setEntries]
  split
  · exact hentries
  · exact hdistinct list'

theorem cleanRemoval_nil : CleanRemoval entry [] := by
  rw [CleanRemoval, if_pos (by simp)]
  simp

theorem EditsAtomically.of_ok
    (hrun : op.operation.perform env record = .ok () record')
    (hdistinct : DistinctNames record → DistinctNames record')
    (hnames : ∀ list, NamedList.names record' list =
      op.namesAfter env list (NamedList.names record list)) :
    EditsAtomically env op record := by
  constructor
  · intro e record₁ herror
    rw [hrun] at herror
    cases herror
  · rw [builderEdit, after_of_ok hrun]
    exact hdistinct
  · intro _ record₁ hok list
    rw [hrun, EStateM.Result.ok.injEq] at hok
    rw [← hok.2]
    exact hnames list

theorem EditsAtomically.of_error
    {e : Failure} (hrun : op.operation.perform env record = .error e record) :
    EditsAtomically env op record := by
  constructor
  · intro e' record₁ herror
    rw [hrun, EStateM.Result.error.injEq] at herror
    exact herror.2.symm
  · rw [builderEdit, after_of_error hrun]
    exact id
  · intro _ record₁ hok
    rw [hrun] at hok
    cases hok

section Writable

variable (haccepted : Accepted record) (hwritable : Writable record)
include haccepted hwritable

theorem atomic_add (hrequest : op.request env = .ok (.add list entry)) :
    EditsAtomically env op record := by
  rcases perform_add haccepted hwritable hrequest with ⟨e, -, hrun⟩ | ⟨found, hfound, hrun⟩
  · exact .of_error hrun
  · have hnames := names_addNamed hfound
    refine .of_ok hrun (fun hdistinct list' => ?_) fun list' => ?_
    · rw [names_withUpdate]
      refine distinctNames_setEntries hdistinct ?_ list'
      rw [hnames]
      split
      · rename_i hnew
        refine List.Nodup.append (hdistinct list) (List.nodup_singleton _) ?_
        exact List.disjoint_singleton.2 hnew
      · exact hdistinct list
    · rw [names_withUpdate, names_setEntries, hnames]
      simp only [LoggedOperation.namesAfter, hrequest]
      by_cases hlist : list' = list
      · subst hlist
        simp [NamedList.names]
      · simp [hlist]

theorem atomic_setText {key text : String} (hrequest : op.request env = .ok (.setText key text)) :
    EditsAtomically env op record := by
  have hsame : ∀ {record₁ : Object}, op.operation.perform env record = .ok () record₁ →
      (∀ list', NamedList.names record₁ list' = NamedList.names record list') →
      EditsAtomically env op record := by
    intro record₁ hrun hnames
    refine .of_ok hrun (fun hdistinct list' => ?_) fun list' => ?_
    · rw [hnames]
      exact hdistinct list'
    · simp only [LoggedOperation.namesAfter, hrequest, hnames]
  obtain ⟨-, -, -, hset⟩ := perform_setText haccepted hwritable hrequest
  rcases hset with ⟨-, hrun⟩ | ⟨-, hrun⟩
  · exact hsame hrun fun _ => rfl
  · refine hsame hrun fun list' => ?_
    rw [names_withUpdate, NamedList.names, entries_set (setText_key hrequest list')]
    rfl

/-- A removal that is made takes off the requested name; one that throws takes off or
moves entries as well when it is not clean. -/
theorem atomic_remove_iff (hrequest : op.request env = .ok (.remove list entry)) :
    EditsAtomically env op record ↔ CleanRemoval entry (list.entries record) := by
  obtain ⟨moved, hmoved, -⟩ :=
    NamedList.exists_stampRemoved (request_accepts (Or.inr hrequest)) env
  have hdistinct' : DistinctNames record → DistinctNames
      (list.setEntries (removeNamed entry (list.entries record)) record) :=
    fun hdistinct => distinctNames_setEntries hdistinct (nodup_removeNamed (hdistinct list))
  rcases perform_remove haccepted hwritable hrequest hmoved with
    ⟨-, hempty, hrun⟩ | ⟨hone, hrun⟩ | ⟨hnot, -, e, hrun⟩
  · have hnone : NamedList.names record list = [] := by rw [NamedList.names, hempty]; rfl
    rw [hempty]
    refine iff_of_true (.of_ok hrun (fun hdistinct list' => ?_) fun list' => ?_) cleanRemoval_nil
    · rw [names_withUpdate]
      exact hdistinct list'
    · rw [names_withUpdate]
      simp only [LoggedOperation.namesAfter, hrequest]
      split
      · rename_i hlist
        rw [hlist, hnone]
        rfl
      · rfl
  · refine iff_of_true (.of_ok hrun (fun hdistinct list' => ?_) fun list' => ?_) hone.clean
    · rw [names_withUpdate, NamedList.names, entries_shelve]
      exact hdistinct' hdistinct list'
    · rw [names_withUpdate, NamedList.names, entries_shelve, ← NamedList.names,
        names_setEntries, names_removeNamed hone.1]
      simp only [LoggedOperation.namesAfter, hrequest]
      split
      · rename_i hlist
        rw [hlist]
        rfl
      · rfl
  · have hiff := removeNamed_eq_self_iff hnot
    rw [← hiff]
    constructor
    · intro hatomic
      have hsame := hatomic.unchanged e _ hrun
      have hentries := entries_setEntries list list (removeNamed entry (list.entries record)) record
      rw [hsame, if_pos rfl] at hentries
      exact hentries.symm
    · intro hsame
      rw [hsame, setEntries_self haccepted] at hrun
      exact .of_error hrun

end Writable

/-- The exact condition under which an operation of the builder is atomic. -/
theorem editsAtomically_iff (haccepted : Accepted record) :
    EditsAtomically env op record ↔ RemovesCleanly env op record := by
  unfold RemovesCleanly
  by_cases hwritable : Writable record
  · rw [forall_prop_of_true hwritable]
    cases hrequest : op.request env with
    | error e => exact iff_of_true (.of_error (perform_of_refused hrequest)) trivial
    | ok request =>
        cases request with
        | add list entry => exact iff_of_true (atomic_add haccepted hwritable hrequest) trivial
        | setText key text =>
            exact iff_of_true (atomic_setText haccepted hwritable hrequest) trivial
        | remove list entry => exact atomic_remove_iff haccepted hwritable hrequest
  · obtain ⟨e, hrun⟩ := perform_of_not_writable hwritable env op
    exact iff_of_true (.of_error hrun) fun h => absurd h hwritable

end Operations

/-! ## A configuration that is listed twice -/

/-- A record that lists a configuration as often as there are numbers in the list. -/
def configuredRecord (names : List String) : Object :=
  overlaidRecord [("configurations", .array (names.map (stamped exampleEnvironment)))]

theorem configuredRecord_accepted : Accepted (configuredRecord ["beam"]) := by
  have hfirst : ovlDatabaseRecord exampleEnvironment
      [("configurations", .array [stamped exampleEnvironment "beam"])] =
        .ok (configuredRecord ["beam"]) := by
    decide
  have hsecond : ovlDatabaseRecord exampleEnvironment (configuredRecord ["beam"]) =
      .ok (configuredRecord ["beam"]) := by
    decide
  exact accepted_of_overlaid hfirst hsecond

theorem configuredRecord_writable : Writable (configuredRecord ["beam"]) := by
  decide

theorem editsAtomically_iff_configured :
    EditsAtomically exampleEnvironment (.removeConfiguration (named "beam"))
      (configuredRecord ["beam"]) :=
  (editsAtomically_iff configuredRecord_accepted).2 (by decide)

/-- Both entries are gone when the removal throws. -/
theorem removeConfiguration_tears_repeated :
    ovlDatabaseRecord exampleEnvironment (configuredRecord ["beam", "beam"]) =
        .ok (configuredRecord ["beam", "beam"]) ∧
      Writable (configuredRecord ["beam", "beam"]) ∧
      NamedList.entries (builderEdit exampleEnvironment
        (.removeConfiguration (named "beam")) (configuredRecord ["beam", "beam"]))
        .configurations = [] ∧
      ¬ EditsAtomically exampleEnvironment (.removeConfiguration (named "beam"))
        (configuredRecord ["beam", "beam"]) := by
  refine ⟨by decide, by decide, by decide, fun hatomic => ?_⟩
  have hrun : BuilderOperation.perform exampleEnvironment (.removeConfiguration (named "beam"))
      (configuredRecord ["beam", "beam"]) = .error .confirmFailed (configuredRecord []) := rfl
  have hsame := hatomic.unchanged _ _ hrun
  revert hsame
  decide

end ArtdaqDatabase
