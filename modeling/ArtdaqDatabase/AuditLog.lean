import ArtdaqDatabase.AtomicEdits

/-!
# The update log of a record

An exact log gains one entry for an operation that changes the record and none for
any other.  The setters keep to it.  An addition does when the name is new, a removal
when it is clean and its list is not a fixed list without entries: what those lists
ignore they report as done, and the record logs it.
-/

namespace ArtdaqDatabase

open OrderedTable InPlaceUpdate InterruptedRemoval GuardedRun

/-- The entries of the update log. -/
def updatesOf (record : Object) : List Value :=
  match lookup "bookkeeping" record with
  | some (.object bookkeeping) => sectionEntries "updates" bookkeeping
  | _ => []

/-- The record without the section that the log is in. -/
def besideBookkeeping (record : Object) : Object :=
  without "bookkeeping" record

/-- What the log names for a request. -/
def EditRequest.value (env : Environment) : EditRequest → Value
  | .add _ entry => entry
  | .remove _ entry =>
      match stampRemoved env entry with
      | .ok moved => moved
      | .error _ => entry
  | .setText _ text => .string text

/-- The operation changes more than the log. -/
def Changes (env : Environment) (op : LoggedOperation) (record : Object) : Prop :=
  besideBookkeeping (builderEdit env op.operation record) ≠ besideBookkeeping record

instance (env : Environment) (op : LoggedOperation) (record : Object) :
    Decidable (Changes env op record) :=
  inferInstanceAs (Decidable (_ ≠ _))

/-- One entry with the event and the value of the operation if it changes the record,
and none otherwise. -/
def LogsExactly (env : Environment) (op : LoggedOperation) (record : Object) : Prop :=
  if Changes env op record then
    ∃ request, op.request env = .ok request ∧
      updatesOf (builderEdit env op.operation record) =
        updatesOf record ++ [updateEntry env op.event (request.value env)]
  else updatesOf (builderEdit env op.operation record) = updatesOf record

/-- The name to add is new; the removal is clean and has something to remove from. -/
def NeverIgnored (record : Object) (p : Environment × LoggedOperation) : Prop :=
  match p.2.request p.1 with
  | .ok (.add list entry) => containsName entry (list.entries record) ≠ .ok true
  | .ok (.remove list entry) =>
      CleanRemoval entry (list.entries record) ∧
        (list ≠ .activeAliases → list.entries record ≠ [])
  | _ => True

/-- The test of `NeverIgnored` on the request. -/
def neverIgnored (record : Object) : Except Failure EditRequest → Bool
  | .ok (.add list entry) => decide (containsName entry (list.entries record) ≠ .ok true)
  | .ok (.remove list entry) =>
      decide (CleanRemoval entry (list.entries record) ∧
        (list ≠ .activeAliases → list.entries record ≠ []))
  | .ok (.setText _ _) => true
  | .error _ => true

theorem neverIgnored_iff (record : Object) (p : Environment × LoggedOperation) :
    neverIgnored record (p.2.request p.1) = true ↔ NeverIgnored record p := by
  unfold NeverIgnored
  cases p.2.request p.1 with
  | error e => simp [neverIgnored]
  | ok request =>
      cases request with
      | add list entry => simp [neverIgnored]
      | remove list entry => exact decide_eq_true_iff
      | setText key text => simp [neverIgnored]

instance (record : Object) (p : Environment × LoggedOperation) :
    Decidable (NeverIgnored record p) :=
  decidable_of_iff _ (neverIgnored_iff record p)

/-! ## Reading the log -/

section Log

variable {record record' : Object} {entry : Value}

theorem besideBookkeeping_withUpdate (entry : Value) (record : Object) :
    besideBookkeeping (withUpdate entry record) = besideBookkeeping record := by
  unfold withUpdate
  split
  · split
    · exact without_set_self _ _ _
    · rfl
  · rfl

theorem entries_congr (hsame : besideBookkeeping record' = besideBookkeeping record)
    (list : NamedList) :
    list.entries record' = list.entries record := by
  have hlookup : ∀ k, k ≠ "bookkeeping" → lookup k record' = lookup k record := by
    intro k hk
    rw [besideBookkeeping, besideBookkeeping] at hsame
    rw [← lookup_without_of_ne hk, hsame, lookup_without_of_ne hk]
  cases list <;>
    simp [NamedList.entries, sectionEntries, activeAliasEntries, hlookup]

theorem updatesOf_congr
    (hsame : lookup "bookkeeping" record' = lookup "bookkeeping" record) :
    updatesOf record' = updatesOf record := by
  rw [updatesOf, updatesOf, hsame]

/-- A log that an edit has not touched gains one entry. -/
theorem updatesOf_withUpdate
    (haccepted : Accepted record)
    (hsame : lookup "bookkeeping" record' = lookup "bookkeeping" record) :
    updatesOf (withUpdate entry record') = updatesOf record ++ [entry] := by
  obtain ⟨b, hb, hholds⟩ := haccepted.bookkeeping
  obtain ⟨updates, hupdates, -⟩ := updates_of_holds hholds
  have hof : bookkeepingOf record' = .ok b := objectAt_eq_ok.2 (hsame.trans hb)
  have hlist : arrayAt "updates" b = .ok updates := arrayAt_eq_ok.2 hupdates
  have hold : updatesOf record = updates := by
    rw [updatesOf, hb]
    simp only [sectionEntries, hupdates]
  have hnew : withUpdate entry record' =
      set "bookkeeping" (.object (set "updates" (.array (updates ++ [entry])) b)) record' := by
    simp only [withUpdate, hof, hlist]
  rw [hold, hnew, updatesOf, lookup_set_self]
  simp only [sectionEntries, lookup_set_self]

theorem lookup_bookkeeping_setEntries
    (list : NamedList) (entries : List Value) (record : Object) :
    lookup "bookkeeping" (list.setEntries entries record) = lookup "bookkeeping" record := by
  cases list <;> exact lookup_set_of_ne (by decide) _ _

theorem lookup_bookkeeping_shelve (list : NamedList) (moved : Value) (record : Object) :
    lookup "bookkeeping" (list.shelve moved record) = lookup "bookkeeping" record := by
  cases list with
  | activeAliases => exact lookup_set_of_ne (by decide) _ _
  | _ => rfl

end Log

/-! ## One operation -/

section Step

variable {env : Environment} {op : LoggedOperation} {record record' : Object}
  {list : NamedList} {entry : Value}

theorem logsExactly_of_changed
    {request : EditRequest} (hrequest : op.request env = .ok request)
    (haccepted : Accepted record)
    (hsame : lookup "bookkeeping" record' = lookup "bookkeeping" record)
    (hchanged : besideBookkeeping record' ≠ besideBookkeeping record)
    (hrun : op.operation.perform env record =
      .ok () (withUpdate (updateEntry env op.event (request.value env)) record')) :
    LogsExactly env op record := by
  have hedit : builderEdit env op.operation record =
      withUpdate (updateEntry env op.event (request.value env)) record' := by
    rw [builderEdit, after_of_ok hrun]
  have hchanges : Changes env op record := by
    rw [Changes, hedit, besideBookkeeping_withUpdate]
    exact hchanged
  rw [LogsExactly, if_pos hchanges]
  exact ⟨request, hrequest, by rw [hedit, updatesOf_withUpdate haccepted hsame]⟩

theorem logsExactly_of_same
    (hedit : builderEdit env op.operation record = record) :
    LogsExactly env op record := by
  have hchanges : ¬ Changes env op record := by
    rw [Changes, hedit]
    exact fun h => h rfl
  rw [LogsExactly, if_neg hchanges, hedit]

/-- An entry for an operation that has changed nothing. -/
theorem not_logsExactly_of_ignored
    (haccepted : Accepted record) {update : Value}
    (hrun : op.operation.perform env record = .ok () (withUpdate update record)) :
    ¬ LogsExactly env op record := by
  have hedit : builderEdit env op.operation record = withUpdate update record := by
    rw [builderEdit, after_of_ok hrun]
  have hchanges : ¬ Changes env op record := by
    rw [Changes, hedit, besideBookkeeping_withUpdate]
    exact fun h => h rfl
  rw [LogsExactly, if_neg hchanges, hedit, updatesOf_withUpdate haccepted rfl]
  simp

/-- A change that is not logged. -/
theorem not_logsExactly_of_torn
    (hsame : lookup "bookkeeping" record' = lookup "bookkeeping" record)
    (hchanged : besideBookkeeping record' ≠ besideBookkeeping record)
    (hedit : builderEdit env op.operation record = record') :
    ¬ LogsExactly env op record := by
  have hchanges : Changes env op record := by
    rw [Changes, hedit]
    exact hchanged
  rw [LogsExactly, if_pos hchanges, hedit, updatesOf_congr hsame]
  rintro ⟨request, -, hgrown⟩
  simp at hgrown

section Writable

variable (haccepted : Accepted record) (hwritable : Writable record)
include haccepted hwritable

theorem logsExactly_add_iff (hrequest : op.request env = .ok (.add list entry)) :
    LogsExactly env op record ↔ containsName entry (list.entries record) ≠ .ok true := by
  rcases perform_add haccepted hwritable hrequest with ⟨e, hfound, hrun⟩ | ⟨found, hfound, hrun⟩
  · refine iff_of_true (logsExactly_of_same ?_) (by simp [hfound])
    rw [builderEdit, after_of_error hrun]
  · cases found with
    | true =>
        have hsame : addNamed entry (list.entries record) = list.entries record := by
          rw [addNamed, hfound]
        rw [hsame, setEntries_self haccepted] at hrun
        exact iff_of_false (not_logsExactly_of_ignored haccepted hrun) fun h => h hfound
    | false =>
        have hgrown : addNamed entry (list.entries record) = list.entries record ++ [entry] := by
          rw [addNamed, hfound]
        refine iff_of_true (logsExactly_of_changed hrequest haccepted
          (lookup_bookkeeping_setEntries _ _ _) (fun hbeside => ?_) hrun) (by simp [hfound])
        have hentries := entries_congr hbeside list
        rw [entries_setEntries, if_pos rfl, hgrown] at hentries
        simp at hentries

theorem logsExactly_setText
    {key text : String} (hrequest : op.request env = .ok (.setText key text)) :
    LogsExactly env op record := by
  obtain ⟨-, hkey, -, hset⟩ := perform_setText haccepted hwritable hrequest
  rcases hset with ⟨-, hrun⟩ | ⟨hnew, hrun⟩
  · apply logsExactly_of_same
    rw [builderEdit, after_of_ok hrun]
  · refine logsExactly_of_changed hrequest haccepted (lookup_set_of_ne hkey.symm _ _)
      (fun hbeside => ?_) hrun
    rw [besideBookkeeping, besideBookkeeping] at hbeside
    apply hnew
    rw [← lookup_without_of_ne hkey record, ← hbeside, lookup_without_of_ne hkey,
      lookup_set_self]

theorem logsExactly_remove_iff (hrequest : op.request env = .ok (.remove list entry)) :
    LogsExactly env op record ↔ CleanRemoval entry (list.entries record) ∧
      (list ≠ .activeAliases → list.entries record ≠ []) := by
  obtain ⟨moved, hmoved, -⟩ :=
    NamedList.exists_stampRemoved (request_accepts (Or.inr hrequest)) env
  have hvalue : (EditRequest.remove list entry).value env = moved := by
    rw [EditRequest.value, hmoved]
  rcases perform_remove haccepted hwritable hrequest hmoved with
    ⟨hlist, hempty, hrun⟩ | ⟨hone, hrun⟩ | ⟨hnot, hreached, e, hrun⟩
  · exact iff_of_false (not_logsExactly_of_ignored haccepted hrun) fun h => h.2 hlist hempty
  · have hlength := (removesOne_iff.1 hone).2
    have hne : list.entries record ≠ [] := by
      intro hempty
      rw [hempty] at hlength
      simp at hlength
    rw [← hvalue] at hrun
    refine iff_of_true (logsExactly_of_changed hrequest haccepted ?_ (fun hbeside => ?_) hrun)
      ⟨hone.clean, fun _ => hne⟩
    · rw [lookup_bookkeeping_shelve, lookup_bookkeeping_setEntries]
    · have hentries := entries_congr hbeside list
      rw [entries_shelve, entries_setEntries, if_pos rfl] at hentries
      rw [hentries] at hlength
      omega
  · have hedit : builderEdit env op.operation record =
        list.setEntries (removeNamed entry (list.entries record)) record := by
      rw [builderEdit, after_of_error hrun]
    have hlist : list ≠ .activeAliases → list.entries record ≠ [] :=
      fun hne => hreached.resolve_left hne
    have hiff := removeNamed_eq_self_iff hnot
    by_cases hclean : CleanRemoval entry (list.entries record)
    · refine iff_of_true (logsExactly_of_same ?_) ⟨hclean, hlist⟩
      rw [hedit, hiff.2 hclean, setEntries_self haccepted]
    · refine iff_of_false (not_logsExactly_of_torn (lookup_bookkeeping_setEntries _ _ _)
        (fun hbeside => ?_) hedit) fun h => hclean h.1
      have hentries := entries_congr hbeside list
      rw [entries_setEntries, if_pos rfl] at hentries
      exact hclean (hiff.1 hentries)

/-- The exact condition under which an operation is logged as it should be. -/
theorem logsExactly_iff :
    LogsExactly env op record ↔ NeverIgnored record (env, op) := by
  unfold NeverIgnored
  cases hrequest : op.request env with
  | error e =>
      have hrun : op.operation.perform env record = .error e record :=
        perform_of_refused hrequest
      refine iff_of_true (logsExactly_of_same ?_) trivial
      rw [builderEdit, after_of_error hrun]
  | ok request =>
      cases request with
      | add list entry => exact logsExactly_add_iff haccepted hwritable hrequest
      | remove list entry => exact logsExactly_remove_iff haccepted hwritable hrequest
      | setText key text =>
          exact iff_of_true (logsExactly_setText haccepted hwritable hrequest) trivial

end Writable

end Step

/-! ## Runs -/

/-- How many operations of the sequence change the record. -/
def changeCount : Object → List (Environment × LoggedOperation) → ℕ
  | _, [] => 0
  | record, p :: ops =>
      (if Changes p.1 p.2 record then 1 else 0) +
        changeCount (loggedEdit record p) ops

/-- Each operation of the sequence is logged as it should be, so that the log has grown
by as many entries as there were changes. -/
structure AuditExact (record : Object) (ops : List (Environment × LoggedOperation)) :
    Prop where
  logs : ∀ done p todo, ops = done ++ p :: todo → LogsExactly p.1 p.2 (loggedEdits record done)
  grows : ∃ entries, updatesOf (loggedEdits record ops) = updatesOf record ++ entries ∧
    entries.length = changeCount record ops

section Runs

variable {record : Object} {p : Environment × LoggedOperation}
  {ops : List (Environment × LoggedOperation)}

theorem LogsExactly.grows (hlogs : LogsExactly p.1 p.2 record) :
    ∃ entries, updatesOf (loggedEdit record p) = updatesOf record ++ entries ∧
      entries.length = if Changes p.1 p.2 record then 1 else 0 := by
  rw [LogsExactly] at hlogs
  by_cases hchanges : Changes p.1 p.2 record
  · rw [if_pos hchanges] at hlogs ⊢
    obtain ⟨request, -, hgrown⟩ := hlogs
    exact ⟨_, hgrown, rfl⟩
  · rw [if_neg hchanges] at hlogs ⊢
    exact ⟨[], hlogs.trans (List.append_nil _).symm, rfl⟩

theorem grows_of_logs
    (hlogs : ∀ done p todo, ops = done ++ p :: todo →
      LogsExactly p.1 p.2 (loggedEdits record done)) :
    ∃ entries, updatesOf (loggedEdits record ops) = updatesOf record ++ entries ∧
      entries.length = changeCount record ops := by
  induction ops generalizing record with
  | nil => exact ⟨[], (List.append_nil _).symm, rfl⟩
  | cons p ops ih =>
      have hhead : LogsExactly p.1 p.2 record := hlogs [] p ops rfl
      have htail : ∀ done q todo, ops = done ++ q :: todo → LogsExactly q.1 q.2
          (loggedEdits (loggedEdit record p) done) :=
        fun done q todo hsplit => hlogs (p :: done) q todo (congrArg (List.cons p) hsplit)
      obtain ⟨first, hfirst, hfirstLength⟩ := hhead.grows
      obtain ⟨entries, hentries, hlength⟩ := ih htail
      refine ⟨first ++ entries, ?_, ?_⟩
      · rw [loggedEdits, run_cons, ← loggedEdits, hentries, hfirst, List.append_assoc]
      · rw [List.length_append, hfirstLength, hlength, changeCount]

/-- The exact condition under which the log of a run is exact. -/
theorem auditExact_iff (haccepted : Accepted record) (hwritable : Writable record) :
    AuditExact record ops ↔ Meets loggedEdit NeverIgnored record ops := by
  have hstep : ∀ (r : Object) (p : Environment × LoggedOperation), Editable r →
      (LogsExactly p.1 p.2 r ↔ NeverIgnored r p) :=
    fun r p hr => logsExactly_iff hr.1 hr.2
  rw [← meets_iff_of_invariant editable_loggedEdit hstep ⟨haccepted, hwritable⟩,
    ← forall_steps_iff_meets]
  exact ⟨fun hexact => hexact.logs, fun hlogs => ⟨hlogs, grows_of_logs hlogs⟩⟩

end Runs

/-! ## An ignored addition -/

theorem auditExact_iff_configured :
    AuditExact (configuredRecord ["beam"])
      [(exampleEnvironment, .addConfiguration (named "target")),
        (exampleEnvironment, .removeConfiguration (named "beam"))] :=
  (auditExact_iff configuredRecord_accepted configuredRecord_writable).2 (by decide)

/-- A configuration that is assigned already is logged once more. -/
theorem addConfiguration_logs_ignored :
    Accepted (configuredRecord ["beam"]) ∧ Writable (configuredRecord ["beam"]) ∧
      ¬ Changes exampleEnvironment (.addConfiguration (named "beam"))
        (configuredRecord ["beam"]) ∧
      ¬ AuditExact (configuredRecord ["beam"])
        [(exampleEnvironment, .addConfiguration (named "beam"))] := by
  refine ⟨configuredRecord_accepted, configuredRecord_writable, by decide, fun hexact => ?_⟩
  obtain ⟨entries, hentries, hlength⟩ := hexact.grows
  have hnone : entries = [] := List.eq_nil_of_length_eq_zero (hlength.trans (by decide))
  rw [hnone] at hentries
  revert hentries
  decide

end ArtdaqDatabase
