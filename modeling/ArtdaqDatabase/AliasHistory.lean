import ArtdaqDatabase.AtomicEdits

/-!
# The history of the aliases

An alias that is removed is erased from the active ones, and the argument of the call
goes to the history in its place.  The history keeps what was assigned exactly when
the argument carries the timestamp of the entry that it replaces.
-/

namespace ArtdaqDatabase

open OrderedTable InPlaceUpdate InterruptedRemoval GuardedRun

/-! ## Assignments -/

def historyEntries (record : Object) : List Value :=
  sectionEntries "history" (aliasesOf record)

/-- The name of an alias and the time of its assignment. -/
def aliasAssignment (entry : Value) : Option Value × Option Value :=
  (nameValue entry, memberValue "assigned" entry)

/-- The assignments that a record knows of, active or past. -/
def aliasAssignments (record : Object) : List (Option Value × Option Value) :=
  (activeAliasEntries record ++ historyEntries record).map aliasAssignment

/-- The assignment that an operation makes, if it makes one. -/
def newAssignments (record : Object) (p : Environment × LoggedOperation) :
    List (Option Value × Option Value) :=
  match p.2.request p.1 with
  | .ok (.add .activeAliases entry) =>
      if containsName entry (activeAliasEntries record) = .ok false then
        [aliasAssignment entry]
      else []
  | _ => []

/-- No assignment is lost or doubled by the operation, and what goes to the history is
an entry that was active, with the time of its removal. -/
structure AliasesConserved (record : Object) (p : Environment × LoggedOperation) : Prop where
  assignments : (aliasAssignments (loggedEdit record p)).Perm
    (aliasAssignments record ++ newAssignments record p)
  history : ∃ moved, historyEntries (loggedEdit record p) = historyEntries record ++ moved ∧
    ∀ x ∈ moved, memberValue "removed" x = some (.string p.1.timestamp) ∧
      ∃ y, (activeAliasEntries record).Perm (y :: activeAliasEntries (loggedEdit record p)) ∧
        aliasAssignment x = aliasAssignment y

/-- A removal that erases takes one entry, and its argument carries the timestamp of
that entry. -/
def KeepsAssigned (record : Object) (p : Environment × LoggedOperation) : Prop :=
  match p.2.request p.1 with
  | .ok (.remove .activeAliases entry) =>
      (∀ x ∈ activeAliasEntries record, answers (isNamedAs entry) x = true) →
        (activeAliasEntries record).countP (taken (isNamedAs entry)) ≤ 1 ∧
          ∀ x ∈ activeAliasEntries record, taken (isNamedAs entry) x = true →
            memberValue "assigned" x = memberValue "assigned" entry
  | _ => True

instance (record : Object) (p : Environment × LoggedOperation) :
    Decidable (KeepsAssigned record p) := by
  unfold KeepsAssigned
  split <;> infer_instance

section Lists

variable {record record' : Object}

theorem aliases_congr (hsame : lookup "aliases" record' = lookup "aliases" record) :
    activeAliasEntries record' = activeAliasEntries record ∧
      historyEntries record' = historyEntries record := by
  constructor
  · rw [activeAliasEntries, activeAliasEntries, hsame]
  · rw [historyEntries, historyEntries, aliasesOf, aliasesOf, hsame]

theorem aliases_withUpdate (update : Value) (record : Object) :
    activeAliasEntries (withUpdate update record) = activeAliasEntries record ∧
      historyEntries (withUpdate update record) = historyEntries record :=
  aliases_congr (lookup_withUpdate (by decide) update record)

theorem aliases_setEntries (entries : List Value) (record : Object) :
    activeAliasEntries (NamedList.activeAliases.setEntries entries record) = entries ∧
      historyEntries (NamedList.activeAliases.setEntries entries record) =
        historyEntries record := by
  constructor
  · exact entries_setEntries .activeAliases .activeAliases entries record
  · rw [historyEntries, aliasesOf, NamedList.setEntries, lookup_set_self]
    simp only [sectionEntries, lookup_set_of_ne (by decide : "history" ≠ "active")]
    rfl

theorem aliases_shelve (moved : Value) (record : Object) :
    activeAliasEntries (NamedList.activeAliases.shelve moved record) =
        activeAliasEntries record ∧
      historyEntries (NamedList.activeAliases.shelve moved record) =
        historyEntries record ++ [moved] := by
  constructor
  · exact entries_shelve .activeAliases .activeAliases moved record
  · rw [historyEntries, aliasesOf, NamedList.shelve, lookup_set_self]
    simp only [sectionEntries, lookup_set_self]
    rfl

/-- What is moved to the history is the argument with the time of its removal. -/
theorem stampRemoved_members {env : Environment} {entry moved : Value}
    (hmoved : stampRemoved env entry = .ok moved) :
    memberValue "removed" moved = some (.string env.timestamp) ∧
      aliasAssignment moved = aliasAssignment entry := by
  simp only [stampRemoved, bind_eq_ok, getObject_eq_ok, Except.ok.injEq] at hmoved
  obtain ⟨o, rfl, rfl⟩ := hmoved
  refine ⟨lookup_set_self _ _ _, ?_⟩
  simp only [aliasAssignment, nameValue, memberValue,
    lookup_set_of_ne (by decide : "name" ≠ "removed"),
    lookup_set_of_ne (by decide : "assigned" ≠ "removed")]

end Lists

/-! ## One operation -/

section Step

variable {record : Object} {p : Environment × LoggedOperation} {list : NamedList}
  {entry : Value}

theorem AliasesConserved.of_same
    (hactive : activeAliasEntries (loggedEdit record p) = activeAliasEntries record)
    (hhistory : historyEntries (loggedEdit record p) = historyEntries record)
    (hnew : newAssignments record p = []) :
    AliasesConserved record p := by
  refine ⟨?_, [], by rw [hhistory, List.append_nil], fun x hx => by simp at hx⟩
  rw [aliasAssignments, hactive, hhistory, hnew, List.append_nil, aliasAssignments]

/-- What an edit of another list leaves of the aliases. -/
theorem aliases_setEntries_of_ne
    (hlist : list ≠ .activeAliases) (entries : List Value) (record : Object) :
    activeAliasEntries (list.setEntries entries record) = activeAliasEntries record ∧
      historyEntries (list.setEntries entries record) = historyEntries record := by
  apply aliases_congr
  rw [setEntries_fixed hlist]
  cases list with
  | activeAliases => exact absurd rfl hlist
  | _ => exact lookup_set_of_ne (by decide) _ _

/-- The one entry that a removal takes. -/
theorem exists_taken {entries : List Value} (hone : RemovesOne entry entries) :
    ∃ y, entries.Perm (y :: removeNamed entry entries) ∧ y ∈ entries ∧
      nameValue y = nameValue entry ∧
      ∀ x ∈ entries, taken (isNamedAs entry) x = true → x = y := by
  have hlength : (entries.filter (taken (isNamedAs entry))).length = 1 := by
    rw [← List.countP_eq_length_filter]
    exact hone.2
  obtain ⟨y, hy⟩ := List.length_eq_one_iff.1 hlength
  have hmem : y ∈ entries ∧ taken (isNamedAs entry) y = true := by
    rw [← List.mem_filter, hy]
    exact List.mem_singleton_self y
  refine ⟨y, ?_, hmem.1, ?_, fun x hx htaken => ?_⟩
  · have hsplit := List.filter_append_perm (taken (isNamedAs entry)) entries
    rw [hy] at hsplit
    rw [removeNamed, removeIf_of_answers hone.1]
    exact hsplit.symm
  · have htaken := taken_isNamedAs (hone.1 y hmem.1)
    rw [hmem.2] at htaken
    simpa using htaken.symm
  · have hin : x ∈ entries.filter (taken (isNamedAs entry)) := List.mem_filter.2 ⟨hx, htaken⟩
    rwa [hy, List.mem_singleton] at hin

section Writable

variable (haccepted : Accepted record) (hwritable : Writable record)
include haccepted hwritable

theorem aliasesConserved_add (hrequest : p.2.request p.1 = .ok (.add list entry)) :
    AliasesConserved record p := by
  rcases perform_add haccepted hwritable hrequest with ⟨e, hfound, hrun⟩ | ⟨found, hfound, hrun⟩
  · have hedit : loggedEdit record p = record := by
      rw [loggedEdit, builderEdit, after_of_error hrun]
    refine .of_same (by rw [hedit]) (by rw [hedit]) ?_
    by_cases hlist : list = .activeAliases
    · subst hlist
      simp only [NamedList.entries] at hfound
      simp [newAssignments, hrequest, hfound]
    · cases list <;> simp [newAssignments, hrequest] at hlist ⊢
  · have hedit : loggedEdit record p = withUpdate (updateEntry p.1 p.2.event entry)
        (list.setEntries (addNamed entry (list.entries record)) record) := by
      rw [loggedEdit, builderEdit, after_of_ok hrun]
    by_cases hlist : list = .activeAliases
    · subst hlist
      have hupdate := aliases_withUpdate (updateEntry p.1 p.2.event entry)
        (NamedList.activeAliases.setEntries
          (addNamed entry (activeAliasEntries record)) record)
      have hset := aliases_setEntries (addNamed entry (activeAliasEntries record)) record
      simp only [NamedList.entries] at hfound hedit
      rw [← hedit, hset.1, hset.2] at hupdate
      cases found with
      | true =>
          have hsame : addNamed entry (activeAliasEntries record) =
              activeAliasEntries record := by
            rw [addNamed, hfound]
          rw [hsame] at hupdate
          exact .of_same hupdate.1 hupdate.2 (by simp [newAssignments, hrequest, hfound])
      | false =>
          have hgrown : addNamed entry (activeAliasEntries record) =
              activeAliasEntries record ++ [entry] := by
            rw [addNamed, hfound]
          rw [hgrown] at hupdate
          refine ⟨?_, [], by rw [hupdate.2, List.append_nil], fun x hx => by simp at hx⟩
          have hnew : newAssignments record p = [aliasAssignment entry] := by
            simp [newAssignments, hrequest, hfound]
          rw [aliasAssignments, aliasAssignments, hupdate.1, hupdate.2, hnew]
          simp only [List.map_append, List.map_singleton, List.append_assoc]
          exact List.Perm.append_left _ List.perm_append_comm
    · have hset := aliases_setEntries_of_ne hlist (addNamed entry (list.entries record)) record
      have hupdate := aliases_withUpdate (updateEntry p.1 p.2.event entry)
        (list.setEntries (addNamed entry (list.entries record)) record)
      rw [← hedit, hset.1, hset.2] at hupdate
      refine .of_same hupdate.1 hupdate.2 ?_
      cases list <;> simp [newAssignments, hrequest] at hlist ⊢

theorem aliasesConserved_setText
    {key text : String} (hrequest : p.2.request p.1 = .ok (.setText key text)) :
    AliasesConserved record p := by
  have hnew : newAssignments record p = [] := by
    simp [newAssignments, hrequest]
  have hsame : lookup "aliases" (loggedEdit record p) = lookup "aliases" record := by
    obtain ⟨-, -, -, hset⟩ := perform_setText haccepted hwritable hrequest
    have hkey := setText_key hrequest .activeAliases
    rcases hset with ⟨-, hrun⟩ | ⟨-, hrun⟩
    · rw [loggedEdit, builderEdit, after_of_ok hrun]
    · rw [loggedEdit, builderEdit, after_of_ok hrun, lookup_withUpdate (by decide)]
      exact lookup_set_of_ne hkey _ _
  have haliases := aliases_congr hsame
  exact .of_same haliases.1 haliases.2 hnew

/-- A removal from another list leaves the aliases alone. -/
theorem aliasesConserved_remove_other
    (hrequest : p.2.request p.1 = .ok (.remove list entry)) (hlist : list ≠ .activeAliases) :
    AliasesConserved record p := by
  obtain ⟨moved, hmoved, -⟩ :=
    NamedList.exists_stampRemoved (request_accepts (Or.inr hrequest)) p.1
  have hnew : newAssignments record p = [] := by
    simp [newAssignments, hrequest]
  have hset := aliases_setEntries_of_ne hlist (removeNamed entry (list.entries record)) record
  have hshelve : ∀ r, list.shelve moved r = r := by
    intro r
    cases list with
    | activeAliases => exact absurd rfl hlist
    | _ => rfl
  have hsame : activeAliasEntries (loggedEdit record p) = activeAliasEntries record ∧
      historyEntries (loggedEdit record p) = historyEntries record := by
    rcases perform_remove haccepted hwritable hrequest hmoved with
      ⟨-, -, hrun⟩ | ⟨-, hrun⟩ | ⟨-, -, e, hrun⟩
    · rw [loggedEdit, builderEdit, after_of_ok hrun]
      exact aliases_withUpdate _ record
    · rw [hshelve] at hrun
      rw [loggedEdit, builderEdit, after_of_ok hrun]
      have hupdate := aliases_withUpdate (updateEntry p.1 p.2.event moved)
        (list.setEntries (removeNamed entry (list.entries record)) record)
      rwa [hset.1, hset.2] at hupdate
    · rw [loggedEdit, builderEdit, after_of_error hrun]
      exact hset
  exact .of_same hsame.1 hsame.2 hnew

theorem aliasesConserved_remove_iff
    (hrequest : p.2.request p.1 = .ok (.remove .activeAliases entry)) :
    AliasesConserved record p ↔ KeepsAssigned record p := by
  obtain ⟨moved, hmoved, -⟩ :=
    NamedList.exists_stampRemoved (request_accepts (Or.inr hrequest)) p.1
  have hmembers := stampRemoved_members hmoved
  have hnew : newAssignments record p = [] := by
    simp [newAssignments, hrequest]
  have hset := aliases_setEntries (removeNamed entry (activeAliasEntries record)) record
  unfold KeepsAssigned
  rw [hrequest]
  rcases perform_remove haccepted hwritable hrequest hmoved with
    ⟨hlist, -⟩ | ⟨hone, hrun⟩ | ⟨hnot, -, e, hrun⟩
  · exact absurd rfl hlist
  · have hedit : activeAliasEntries (loggedEdit record p) =
          removeNamed entry (activeAliasEntries record) ∧
        historyEntries (loggedEdit record p) = historyEntries record ++ [moved] := by
      rw [loggedEdit, builderEdit, after_of_ok hrun]
      have hupdate := aliases_withUpdate (updateEntry p.1 p.2.event moved)
        (NamedList.activeAliases.shelve moved (NamedList.activeAliases.setEntries
          (removeNamed entry (activeAliasEntries record)) record))
      have hshelve := aliases_shelve moved (NamedList.activeAliases.setEntries
        (removeNamed entry (activeAliasEntries record)) record)
      rwa [hshelve.1, hshelve.2, hset.1, hset.2] at hupdate
    obtain ⟨y, hsplit, hy, hname, honly⟩ := exists_taken hone
    have hbefore : (aliasAssignments record).Perm
        (aliasAssignment y :: (removeNamed entry (activeAliasEntries record) ++
          historyEntries record).map aliasAssignment) :=
      (hsplit.append_right (historyEntries record)).map aliasAssignment
    have hafter : (aliasAssignments (loggedEdit record p)).Perm
        (aliasAssignment moved :: (removeNamed entry (activeAliasEntries record) ++
          historyEntries record).map aliasAssignment) := by
      rw [aliasAssignments, hedit.1, hedit.2, ← List.append_assoc]
      exact (List.perm_append_singleton moved _).map aliasAssignment
    constructor
    · intro hconserved _
      have hperm := hconserved.assignments
      rw [hnew, List.append_nil] at hperm
      have hcancel := hafter.symm.trans (hperm.trans hbefore)
      have hsame : aliasAssignment moved = aliasAssignment y :=
        List.singleton_perm_singleton.1 ((List.perm_append_right_iff _).1 hcancel)
      refine ⟨hone.2.le, fun x hx htaken => ?_⟩
      rw [honly x hx htaken]
      rw [hmembers.2] at hsame
      exact (congrArg Prod.snd hsame).symm
    · intro hkeeps
      have htaken : taken (isNamedAs entry) y = true := by
        rw [taken_isNamedAs (hone.1 y hy), hname]
        simp
      have hassigned := (hkeeps hone.1).2 y hy htaken
      have hsame : aliasAssignment moved = aliasAssignment y := by
        rw [hmembers.2]
        exact Prod.ext hname.symm hassigned.symm
      refine ⟨?_, [moved], hedit.2, fun x hx => ?_⟩
      · rw [hnew, List.append_nil]
        rw [hsame] at hafter
        exact hafter.trans hbefore.symm
      · rw [List.mem_singleton.1 hx]
        refine ⟨hmembers.1, y, ?_, hsame⟩
        rw [hedit.1]
        exact hsplit
  · have hedit : activeAliasEntries (loggedEdit record p) =
          removeNamed entry (activeAliasEntries record) ∧
        historyEntries (loggedEdit record p) = historyEntries record := by
      rw [loggedEdit, builderEdit, after_of_error hrun]
      exact hset
    by_cases hanswers : ∀ x ∈ activeAliasEntries record, answers (isNamedAs entry) x = true
    · have hcount : (activeAliasEntries record).countP (taken (isNamedAs entry)) ≠ 1 :=
        fun h => hnot ⟨hanswers, h⟩
      constructor
      · intro hconserved _
        have hlength := hconserved.assignments.length_eq
        rw [hnew, List.append_nil, aliasAssignments, aliasAssignments, hedit.1, hedit.2,
          List.length_map, List.length_map, List.length_append, List.length_append] at hlength
        have hremoved := length_removeNamed hanswers
        have hzero : (activeAliasEntries record).countP (taken (isNamedAs entry)) = 0 := by
          omega
        refine ⟨by omega, fun x hx htaken => ?_⟩
        exact absurd htaken (List.countP_eq_zero.1 hzero x hx)
      · intro hkeeps
        have hzero : (activeAliasEntries record).countP (taken (isNamedAs entry)) = 0 := by
          have := (hkeeps hanswers).1
          omega
        have hclean : CleanRemoval entry (activeAliasEntries record) := by
          rw [CleanRemoval, if_pos hanswers]
          omega
        have hsame : removeNamed entry (activeAliasEntries record) =
            activeAliasEntries record := (removeNamed_eq_self_iff hnot).2 hclean
        rw [hsame] at hedit
        exact .of_same hedit.1 hedit.2 hnew
    · refine iff_of_true ⟨?_, [], by rw [hedit.2, List.append_nil], fun x hx => by simp at hx⟩
        fun h => absurd h hanswers
      rw [hnew, List.append_nil, aliasAssignments, aliasAssignments, hedit.1, hedit.2]
      exact ((removeIf_perm_of_not_answers hanswers).append_right _).map aliasAssignment

end Writable

/-- The exact condition under which an operation conserves the assignments. -/
theorem aliasesConserved_iff (heditable : Editable record) :
    AliasesConserved record p ↔ KeepsAssigned record p := by
  obtain ⟨haccepted, hwritable⟩ := heditable
  cases hrequest : p.2.request p.1 with
  | error e =>
      have hedit : loggedEdit record p = record := by
        rw [loggedEdit, builderEdit, after_of_error (perform_of_refused hrequest)]
      refine iff_of_true (.of_same (by rw [hedit]) (by rw [hedit]) ?_) ?_
      · simp [newAssignments, hrequest]
      · simp [KeepsAssigned, hrequest]
  | ok request =>
      cases request with
      | add list entry =>
          refine iff_of_true (aliasesConserved_add haccepted hwritable hrequest) ?_
          simp [KeepsAssigned, hrequest]
      | setText key text =>
          refine iff_of_true (aliasesConserved_setText haccepted hwritable hrequest) ?_
          simp [KeepsAssigned, hrequest]
      | remove list entry =>
          by_cases hlist : list = .activeAliases
          · subst hlist
            exact aliasesConserved_remove_iff haccepted hwritable hrequest
          · refine iff_of_true
              (aliasesConserved_remove_other haccepted hwritable hrequest hlist) ?_
            simp [KeepsAssigned, hrequest, hlist]

end Step

/-! ## Runs -/

/-- The assignments that a sequence of operations makes. -/
def assignmentsMade :
    Object → List (Environment × LoggedOperation) → List (Option Value × Option Value)
  | _, [] => []
  | record, p :: ops => newAssignments record p ++ assignmentsMade (loggedEdit record p) ops

/-- Every assignment made is active or past, once; each operation moves to the history
what was active. -/
structure AliasHistoryExact (record : Object) (ops : List (Environment × LoggedOperation)) :
    Prop where
  steps : ∀ done p todo, ops = done ++ p :: todo →
    AliasesConserved (loggedEdits record done) p
  total : (aliasAssignments (loggedEdits record ops)).Perm
    (aliasAssignments record ++ assignmentsMade record ops)

section Runs

variable {record : Object} {ops : List (Environment × LoggedOperation)}

theorem total_of_steps (hsteps : Meets loggedEdit AliasesConserved record ops) :
    (aliasAssignments (loggedEdits record ops)).Perm
      (aliasAssignments record ++ assignmentsMade record ops) := by
  induction ops generalizing record with
  | nil =>
      rw [assignmentsMade, List.append_nil]
      exact List.Perm.refl _
  | cons p ops ih =>
      obtain ⟨hhead, htail⟩ := hsteps
      have hrest := (ih htail).trans (hhead.assignments.append_right _)
      rwa [List.append_assoc] at hrest

/-- The exact condition under which the history keeps what was assigned. -/
theorem aliasHistoryExact_iff (haccepted : Accepted record) (hwritable : Writable record) :
    AliasHistoryExact record ops ↔ Meets loggedEdit KeepsAssigned record ops := by
  have hstep : ∀ (r : Object) (p : Environment × LoggedOperation), Editable r →
      (AliasesConserved r p ↔ KeepsAssigned r p) :=
    fun r p hr => aliasesConserved_iff hr
  rw [← meets_iff_of_invariant editable_loggedEdit hstep ⟨haccepted, hwritable⟩]
  constructor
  · intro hexact
    exact forall_steps_iff_meets.1 hexact.steps
  · intro hmeets
    exact ⟨forall_steps_iff_meets.2 hmeets, total_of_steps hmeets⟩

end Runs

/-! ## An alias that is removed by its name -/

/-- A time after that of the example environment. -/
def laterEnvironment : Environment :=
  { exampleEnvironment with
    timestamp := "2026-01-02T00:00:00.000+0000"
    timestamp_iso := by decide }

/-- An alias is added, and removed later by an argument that carries its timestamp. -/
theorem aliasHistoryExact_iff_stamped :
    AliasHistoryExact (configuredRecord ["beam"])
      [(exampleEnvironment, .addAlias (named "gold")),
        (laterEnvironment, .removeAlias (stamped exampleEnvironment "gold"))] :=
  (aliasHistoryExact_iff configuredRecord_accepted configuredRecord_writable).2 (by decide)

/-- An argument that is only a name is stamped on construction, and the history shows
the alias as assigned when it was removed. -/
theorem removeAlias_forgets_assigned :
    exampleEnvironment.timestamp ≤ laterEnvironment.timestamp ∧
      Accepted (configuredRecord ["beam"]) ∧ Writable (configuredRecord ["beam"]) ∧
      aliasAssignments (loggedEdits (configuredRecord ["beam"])
          [(exampleEnvironment, .addAlias (named "gold"))]) =
        [(some (.string "gold"), some (.string exampleEnvironment.timestamp))] ∧
      aliasAssignments (loggedEdits (configuredRecord ["beam"])
          [(exampleEnvironment, .addAlias (named "gold")),
            (laterEnvironment, .removeAlias (named "gold"))]) =
        [(some (.string "gold"), some (.string laterEnvironment.timestamp))] ∧
      ¬ AliasHistoryExact (configuredRecord ["beam"])
        [(exampleEnvironment, .addAlias (named "gold")),
          (laterEnvironment, .removeAlias (named "gold"))] := by
  refine ⟨by decide, configuredRecord_accepted, configuredRecord_writable, by decide, by decide,
    fun hexact => ?_⟩
  have htotal := hexact.total
  revert htotal
  decide

end ArtdaqDatabase
