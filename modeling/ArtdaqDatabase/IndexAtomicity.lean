import ArtdaqDatabase.IndexRebuild

/-!
# Whole and partial updates of the index

`addDocument` and `removeDocument` update one table after the other while they read
the sections of the document, and an exception keeps what was done before it.  The
steps that each of them takes are a list that the document alone determines; from
it follow the inputs on which an update is made as a whole or not at all.
-/

namespace ArtdaqDatabase

open OrderedTable SortedUnique InvertedIndex InPlaceUpdate CommutingUpdates SearchIndex

/-! ## The steps of a document -/

/-- What one of the `_remove` members strikes. -/
def Insertion.undo : Insertion → SearchIndex → SearchIndex
  | .id ouid => overOuid fun ouids => ouids.filter (· ≠ ouid)
  | .posting column value ouid => overTable (dropPosting value ouid) column

/-- The value is read, and neither it nor the id may be empty. -/
def postingStep (column : Column) (ouid : String) : Except Failure String → Option Insertion
  | .ok value => if ouid = "" ∨ value = "" then none else some (.posting column value ouid)
  | .error _ => none

def nameSteps (column : Column) (ouid : String) (entry : Value) : List (Option Insertion) :=
  [postingStep column ouid (nameOf entry)]

/-- A configuration is listed before its timestamp is read. -/
def assignedStep (config : Value) : Option Insertion :=
  match assignmentOf config with
  | .ok (configuration, assigned) =>
      postingStep .configurationsAssigned assigned (.ok configuration)
  | .error _ => none

def configurationSteps (ouid : String) (config : Value) : List (Option Insertion) :=
  [postingStep .configurations ouid (nameOf config), assignedStep config]

/-- A pass over a section, which stops at once if the section is no array. -/
def sectionSteps (steps : Value → List (Option Insertion)) :
    Except Failure (List Value) → List (Option Insertion)
  | .ok entries => entries.flatMap steps
  | .error _ => [none]

/-- The id, the version and the configurations, which both functions visit first. -/
def requiredSteps (document : Object) (ouid : String) : List (Option Insertion) :=
  [some (.id ouid), postingStep .version ouid (stringAt "version" document)] ++
    sectionSteps (configurationSteps ouid) (arrayAt "configurations" document)

/-- The sections whose failures `addDocument` drops. -/
def toleratedSteps (document : Object) (ouid : String) (column : Column) :
    List (Option Insertion) :=
  match column with
  | .entities => sectionSteps (nameSteps .entities ouid) (arrayAt "entities" document)
  | .versionAliases =>
      sectionSteps (nameSteps .versionAliases ouid)
        (objectAt "aliases" document >>= arrayAt "active")
  | .runs => sectionSteps (nameSteps .runs ouid) (arrayAt "runs" document)
  | _ => []

/-- The steps of `removeDocument`. -/
def removedSteps (document : Object) (ouid : String) : List (Option Insertion) :=
  requiredSteps document ouid ++
    (sectionSteps (nameSteps .configurations ouid)
        (objectAt "aliases" document >>= arrayAt "active") ++
      sectionSteps (nameSteps .runs ouid) (arrayAt "runs" document))

/-! ## What the functions do -/

section Passes

variable {act : Insertion → SearchIndex → SearchIndex}

theorem performs_updateTable
    (rewrite : String → String → Postings → Postings) {column : Column}
    (hrewrite : ∀ value ouid index,
      overTable (rewrite value ouid) column index = act (.posting column value ouid) index)
    (ouid : String) {r : Except Failure String} {value : String} (hr : r = .ok value) :
    Performs act [postingStep column ouid r] ()
      (updateTable ouid value (overTable (rewrite value ouid) column)) := by
  subst hr
  by_cases houid : ouid = ""
  · have hstep : postingStep column ouid (.ok value) = none := by simp [postingStep, houid]
    have hconfirm : confirm (decide (ouid ≠ "")) = .error .confirmFailed := by
      simp [confirm, houid]
    rw [hstep]
    exact Performs.lift_error hconfirm [] ()
  · have hconfirm : confirm (decide (ouid ≠ "")) = .ok () := by simp [confirm, houid]
    refine Performs.lift_ok hconfirm ?_
    by_cases hvalue : value = ""
    · have hstep : postingStep column ouid (.ok value) = none := by simp [postingStep, hvalue]
      have hconfirm : confirm (decide (value ≠ "")) = .error .confirmFailed := by
        simp [confirm, hvalue]
      rw [hstep]
      exact Performs.lift_error hconfirm [] ()
    · have hstep : postingStep column ouid (.ok value) = some (.posting column value ouid) := by
        simp [postingStep, houid, hvalue]
      have hconfirm : confirm (decide (value ≠ "")) = .ok () := by simp [confirm, hvalue]
      rw [hstep]
      exact Performs.lift_ok hconfirm (Performs.write (hrewrite value ouid))

theorem performs_named
    {r : Except Failure String} {column : Column} {ouid : String} {update : String → IndexM Unit}
    (hupdate : ∀ value, r = .ok value → Performs act [postingStep column ouid r] () (update value)) :
    Performs act [postingStep column ouid r] () (lift r >>= update) := by
  cases hr : r with
  | ok value =>
      rw [← hr]
      exact Performs.lift_ok hr (hupdate value hr)
  | error e => exact Performs.lift_error rfl [] ()

theorem performs_section
    {entries : Except Failure (List Value)} {steps : Value → List (Option Insertion)}
    {visit : Value → IndexM PUnit} (hvisit : ∀ entry, Performs act (steps entry) () (visit entry)) :
    Performs act (sectionSteps steps entries) ()
      (lift entries >>= fun entries => entries.forM visit) := by
  cases entries with
  | ok entries => exact Performs.lift_ok rfl (Performs.forM hvisit)
  | error e => exact Performs.lift_error rfl [] ()

theorem performs_configuration
    {add addAssigned : String → String → IndexM Unit} {ouid : String} {config : Value}
    (hadd : ∀ {r : Except Failure String} {value : String}, r = .ok value →
      Performs act [postingStep .configurations ouid r] () (add ouid value))
    (haddAssigned : ∀ (assigned : String) {r : Except Failure String} {value : String},
      r = .ok value →
        Performs act [postingStep .configurationsAssigned assigned r] () (addAssigned assigned value)) :
    Performs act (configurationSteps ouid config) ()
      (lift (nameOf config) >>= fun configuration =>
        add ouid configuration >>= fun _ =>
        lift (config.getObject >>= stringAt "assigned") >>= fun assigned =>
          addAssigned assigned configuration) := by
  cases hname : nameOf config with
  | error e =>
      have hsteps : configurationSteps ouid config = [none, assignedStep config] := by
        simp [configurationSteps, hname, postingStep]
      rw [hsteps]
      exact Performs.lift_error rfl _ ()
  | ok configuration =>
      refine Performs.lift_ok rfl ?_
      rw [configurationSteps]
      change Performs act ([_] ++ [_]) () _
      refine Performs.seq (hadd hname) ?_
      cases hassigned : config.getObject >>= stringAt "assigned" with
      | error e =>
          have hstep : assignedStep config = none := by
            rw [assignedStep, assignmentOf, hname, hassigned]
            rfl
          rw [hstep]
          exact Performs.lift_error rfl [] ()
      | ok assigned =>
          have hstep : assignedStep config =
              postingStep .configurationsAssigned assigned (.ok configuration) := by
            rw [assignedStep, assignmentOf_eq_ok.2 ⟨hname, hassigned⟩]
          rw [hstep]
          exact Performs.lift_ok rfl (haddAssigned assigned rfl)

theorem performs_names
    {column : Column} {ouid : String} {entries : Except Failure (List Value)}
    {update : String → IndexM Unit}
    (hupdate : ∀ {r : Except Failure String} {value : String}, r = .ok value →
      Performs act [postingStep column ouid r] () (update value)) :
    Performs act (sectionSteps (nameSteps column ouid) entries) ()
      (lift entries >>= fun entries => forEachName entries update) :=
  performs_section fun _ => performs_named fun _ hname => hupdate hname

theorem performs_configurations
    {add addAssigned : String → String → IndexM Unit} {ouid : String}
    {configs : Except Failure (List Value)}
    (hadd : ∀ {r : Except Failure String} {value : String}, r = .ok value →
      Performs act [postingStep .configurations ouid r] () (add ouid value))
    (haddAssigned : ∀ (assigned : String) {r : Except Failure String} {value : String},
      r = .ok value →
        Performs act [postingStep .configurationsAssigned assigned r] ()
          (addAssigned assigned value)) :
    Performs act (sectionSteps (configurationSteps ouid) configs) ()
      (lift configs >>= fun configs => forEachConfiguration configs add addAssigned ouid) :=
  performs_section fun _ => performs_configuration hadd haddAssigned

end Passes

/-- The steps of `addDocument`. -/
def addedSteps (document : Object) (ouid : String) : List (Option Insertion) :=
  requiredSteps document ouid ++
    ((made (toleratedSteps document ouid .entities)).map some ++
      ((made (toleratedSteps document ouid .versionAliases)).map some ++
        (made (toleratedSteps document ouid .runs)).map some))

theorem performs_add
    (column : Column) (ouid : String) {r : Except Failure String} {value : String}
    (hr : r = .ok value) :
    Performs Insertion.apply [postingStep column ouid r] ()
      (updateTable ouid value (overTable (insertPosting value ouid) column)) :=
  performs_updateTable insertPosting (fun _ _ _ => rfl) ouid hr

theorem performs_remove
    (column : Column) (ouid : String) {r : Except Failure String} {value : String}
    (hr : r = .ok value) :
    Performs Insertion.undo [postingStep column ouid r] ()
      (updateTable ouid value (overTable (dropPosting value ouid) column)) :=
  performs_updateTable dropPosting (fun _ _ _ => rfl) ouid hr

theorem addDocument_eq {ouid : String} (houid : ouid ≠ "") (document : Object)
    (index : SearchIndex) :
    addDocument document ouid index =
      .ok (completes (requiredSteps document ouid))
        (applyAll Insertion.apply (made (addedSteps document ouid)) index) := by
  have hconfirm : confirm (decide (ouid ≠ "")) = .ok () := by simp [confirm, houid]
  have hid : Performs Insertion.apply [some (.id ouid)] () (addId ouid) :=
    Performs.lift_ok hconfirm (Performs.write fun _ => rfl)
  have htolerated : ∀ (column : Column) (entries : Except Failure (List Value)),
      Performs Insertion.apply ((made (sectionSteps (nameSteps column ouid) entries)).map some) ()
        (tryIgnore do
          let entries ← lift entries
          forEachName entries fun name =>
            updateTable ouid name (overTable (insertPosting name ouid) column)) :=
    fun column entries => Performs.ignored (performs_names fun hr => performs_add column ouid hr)
  have hversion : Performs Insertion.apply
      [postingStep .version ouid (stringAt "version" document)] ()
      (lift (stringAt "version" document) >>= addVersion ouid) :=
    performs_named fun _ hr => performs_add .version ouid hr
  have hconfigs : Performs Insertion.apply
      (sectionSteps (configurationSteps ouid) (arrayAt "configurations" document)) ()
      (lift (arrayAt "configurations" document) >>= fun configs =>
        forEachConfiguration configs addConfiguration addConfigurationAssigned ouid) :=
    performs_configurations (fun hr => performs_add .configurations ouid hr)
      (fun assigned _ _ hr => performs_add .configurationsAssigned assigned hr)
  have hbody := Performs.seq hid <| Performs.lift_seq hversion <| Performs.lift_seq hconfigs <|
    Performs.seq (htolerated .entities (arrayAt "entities" document)) <|
    Performs.seq (htolerated .versionAliases (objectAt "aliases" document >>= arrayAt "active")) <|
    Performs.seq (htolerated .runs (arrayAt "runs" document)) <| Performs.pure true
  have hcompletes : completes (addedSteps document ouid) =
      completes (requiredSteps document ouid) := by
    simp [addedSteps, completes]
  have hcaught := hbody.caught (b := false) index
  rw [List.append_nil] at hcaught
  change _ = EStateM.Result.ok (if completes (addedSteps document ouid) = true then true else false)
    (applyAll Insertion.apply (made (addedSteps document ouid)) index) at hcaught
  rw [hcompletes, Bool.if_true_left, Bool.or_false, Bool.decide_eq_true] at hcaught
  rw [addDocument, bind_run (lift_run hconfirm index)]
  exact hcaught

theorem removeDocument_eq {ouid : String} (houid : ouid ≠ "") (document : Object)
    (index : SearchIndex) :
    removeDocument document ouid index =
      .ok (completes (removedSteps document ouid))
        (applyAll Insertion.undo (made (removedSteps document ouid)) index) := by
  have hconfirm : confirm (decide (ouid ≠ "")) = .ok () := by simp [confirm, houid]
  have hid : Performs Insertion.undo [some (.id ouid)] () (removeId ouid) :=
    Performs.lift_ok hconfirm (Performs.write fun _ => rfl)
  have hversion : Performs Insertion.undo
      [postingStep .version ouid (stringAt "version" document)] ()
      (lift (stringAt "version" document) >>= removeVersion ouid) :=
    performs_named fun _ hr => performs_remove .version ouid hr
  have hconfigs : Performs Insertion.undo
      (sectionSteps (configurationSteps ouid) (arrayAt "configurations" document)) ()
      (lift (arrayAt "configurations" document) >>= fun configs =>
        forEachConfiguration configs removeConfiguration removeConfigurationAssigned ouid) :=
    performs_configurations (fun hr => performs_remove .configurations ouid hr)
      (fun assigned _ _ hr => performs_remove .configurationsAssigned assigned hr)
  have haliases : Performs Insertion.undo
      (sectionSteps (nameSteps .configurations ouid)
        (objectAt "aliases" document >>= arrayAt "active")) ()
      (lift (objectAt "aliases" document >>= arrayAt "active") >>= fun aliases =>
        forEachName aliases (removeConfiguration ouid)) :=
    performs_names fun hr => performs_remove .configurations ouid hr
  have hruns : Performs Insertion.undo
      (sectionSteps (nameSteps .runs ouid) (arrayAt "runs" document)) ()
      (lift (arrayAt "runs" document) >>= fun runs => forEachName runs (removeRun ouid)) :=
    performs_names fun hr => performs_remove .runs ouid hr
  have hbody := Performs.seq hid <| Performs.lift_seq hversion <| Performs.lift_seq hconfigs <|
    Performs.lift_seq haliases <| Performs.lift_seq hruns <| Performs.pure true
  have hcaught := hbody.caught (b := false) index
  rw [List.append_nil] at hcaught
  change _ = EStateM.Result.ok
    (if completes (removedSteps document ouid) = true then true else false)
    (applyAll Insertion.undo (made (removedSteps document ouid)) index) at hcaught
  rw [Bool.if_true_left, Bool.or_false, Bool.decide_eq_true] at hcaught
  rw [removeDocument, bind_run (lift_run hconfirm index)]
  exact hcaught

/-! ## Updates without effect -/

/-- The insertion finds what it would insert. -/
def AlreadyListed (index : SearchIndex) : Insertion → Prop
  | .id ouid => index.ouid.SortedLT ∧ ouid ∈ index.ouid
  | .posting column value ouid =>
      (posting value (index.table column)).SortedLT ∧ ouid ∈ posting value (index.table column)

/-- The removal finds nothing to strike. -/
def NotListed (index : SearchIndex) : Insertion → Prop
  | .id ouid => ouid ∉ index.ouid
  | .posting column value ouid => ouid ∉ posting value (index.table column)

theorem overTable_eq_self
    {f : Postings → Postings} {column : Column} {index : SearchIndex}
    (hf : f (index.table column) = index.table column) :
    overTable f column index = index := by
  cases column <;>
    simp_all [overTable, SearchIndex.table, overVersion, overConfigurations, overEntities,
      overVersionAliases, overRuns, overConfigurationsAssigned]

theorem sortUnique_append_of_mem
    {ids : List String} {ouid : String} (hsorted : ids.SortedLT) (hmem : ouid ∈ ids) :
    sortUnique (ids ++ [ouid]) = ids := by
  refine (eq_sortUnique hsorted fun id => ?_).symm
  have hid : id = ouid → id ∈ ids := fun heq => heq ▸ hmem
  simp only [List.mem_append, List.mem_singleton]
  tauto

theorem filter_ne_eq_self {ids : List String} {ouid : String} (habsent : ouid ∉ ids) :
    ids.filter (· ≠ ouid) = ids := by
  rw [List.filter_eq_self]
  intro id hid
  simpa using fun heq : id = ouid => habsent (heq ▸ hid)

theorem insertPosting_eq_self
    {t : Postings} {value ouid : String} (hsorted : (posting value t).SortedLT)
    (hlisted : ouid ∈ posting value t) :
    insertPosting value ouid t = t := by
  rw [insertPosting, sortUnique_append_of_mem hsorted hlisted]
  refine set_of_lookup ?_
  unfold posting at hlisted ⊢
  cases hlookup : lookup value t with
  | none => simp [hlookup] at hlisted
  | some ids => rfl

theorem dropPosting_eq_self
    {t : Postings} {value ouid : String} (habsent : ouid ∉ posting value t) :
    dropPosting value ouid t = t := by
  unfold posting at habsent
  unfold dropPosting
  induction t with
  | nil => rfl
  | cons entry rest ih =>
      obtain ⟨name, ids⟩ := entry
      by_cases hname : name = value
      · have hids : ouid ∉ ids := by simpa [lookup, hname] using habsent
        simp only [adjust, if_pos hname, filter_ne_eq_self hids]
      · have hrest : ouid ∉ (lookup value rest).getD [] := by
          simpa [lookup, hname] using habsent
        simp only [adjust, if_neg hname, ih hrest]

theorem posting_apply (column other : Column) (value name ouid : String) (index : SearchIndex) :
    posting name ((Insertion.apply (.posting column value ouid) index).table other) =
      if other = column ∧ name = value then
        sortUnique (posting value (index.table column) ++ [ouid])
      else posting name (index.table other) := by
  unfold posting
  rw [lookup_apply_posting]
  split <;> rfl

theorem posting_undo (column other : Column) (value name ouid : String) (index : SearchIndex) :
    posting name ((Insertion.undo (.posting column value ouid) index).table other) =
      if other = column ∧ name = value then
        (posting value (index.table column)).filter (· ≠ ouid)
      else posting name (index.table other) := by
  rw [Insertion.undo, table_overTable]
  by_cases hcolumn : other = column
  · subst hcolumn
    rw [if_pos rfl, posting_dropPosting]
    by_cases hname : name = value <;> simp [hname]
  · rw [if_neg hcolumn, if_neg fun h => hcolumn h.1]

theorem alreadyListed_apply_self (insertion : Insertion) (index : SearchIndex) :
    AlreadyListed (insertion.apply index) insertion := by
  cases insertion with
  | id ouid => exact ⟨sortUnique_sortedLT _, mem_sortUnique.2 (by simp)⟩
  | posting column value ouid =>
      rw [AlreadyListed, posting_apply, if_pos ⟨rfl, rfl⟩]
      exact ⟨sortUnique_sortedLT _, mem_sortUnique.2 (by simp)⟩

theorem alreadyListed_apply
    (insertion other : Insertion) {index : SearchIndex} (h : AlreadyListed index insertion) :
    AlreadyListed (other.apply index) insertion := by
  cases insertion with
  | id ouid =>
      cases other with
      | id ouid' =>
          exact ⟨sortUnique_sortedLT _, mem_sortUnique.2 (List.mem_append_left _ h.2)⟩
      | posting column value ouid' =>
          rw [AlreadyListed, ouid_apply_posting]
          exact h
  | posting column value ouid =>
      cases other with
      | id ouid' =>
          rw [AlreadyListed, table_apply_id]
          exact h
      | posting column' value' ouid' =>
          rw [AlreadyListed, posting_apply]
          split
          · rename_i hsame
            obtain ⟨rfl, rfl⟩ := hsame
            exact ⟨sortUnique_sortedLT _, mem_sortUnique.2 (List.mem_append_left _ h.2)⟩
          · exact h

theorem apply_of_alreadyListed
    (insertion : Insertion) {index : SearchIndex} (h : AlreadyListed index insertion) :
    insertion.apply index = index := by
  cases insertion with
  | id ouid => simp only [Insertion.apply, overOuid, sortUnique_append_of_mem h.1 h.2]
  | posting column value ouid => exact overTable_eq_self (insertPosting_eq_self h.1 h.2)

theorem notListed_undo_self (insertion : Insertion) (index : SearchIndex) :
    NotListed (insertion.undo index) insertion := by
  cases insertion with
  | id ouid => simp [NotListed, Insertion.undo, overOuid]
  | posting column value ouid =>
      rw [NotListed, posting_undo, if_pos ⟨rfl, rfl⟩]
      simp

theorem notListed_undo
    (insertion other : Insertion) {index : SearchIndex} (h : NotListed index insertion) :
    NotListed (other.undo index) insertion := by
  cases insertion with
  | id ouid =>
      cases other with
      | id ouid' => exact fun hmem => h (List.mem_of_mem_filter hmem)
      | posting column value ouid' =>
          rw [NotListed, Insertion.undo, ouid_overTable]
          exact h
  | posting column value ouid =>
      cases other with
      | id ouid' =>
          rw [NotListed, Insertion.undo, table_overOuid]
          exact h
      | posting column' value' ouid' =>
          rw [NotListed, posting_undo]
          split
          · rename_i hsame
            obtain ⟨rfl, rfl⟩ := hsame
            exact fun hmem => h (List.mem_of_mem_filter hmem)
          · exact h

theorem undo_of_notListed
    (insertion : Insertion) {index : SearchIndex} (h : NotListed index insertion) :
    insertion.undo index = index := by
  cases insertion with
  | id ouid => simp only [Insertion.undo, overOuid, filter_ne_eq_self h]
  | posting column value ouid => exact overTable_eq_self (dropPosting_eq_self h)

theorem notListed_applyAll_undo
    {insertion : Insertion} {insertions : List Insertion} (hmem : insertion ∈ insertions)
    (index : SearchIndex) :
    NotListed (applyAll Insertion.undo insertions index) insertion :=
  applyAll_holds notListed_undo_self (fun insertion other _ h => notListed_undo insertion other h)
    hmem index

/-! ## What the tables list afterwards -/

theorem mem_posting_applyAll_apply
    {insertions : List Insertion} {index : SearchIndex} {column : Column} {value ouid : String} :
    ouid ∈ posting value ((applyAll Insertion.apply insertions index).table column) ↔
      Insertion.posting column value ouid ∈ insertions ∨
        ouid ∈ posting value (index.table column) := by
  induction insertions generalizing index with
  | nil => simp
  | cons insertion insertions ih =>
      rw [applyAll_cons, ih, List.mem_cons]
      cases insertion with
      | id ouid' => simp
      | posting column' value' ouid' =>
          rw [posting_apply]
          by_cases hsame : column = column' ∧ value = value'
          · obtain ⟨rfl, rfl⟩ := hsame
            simp
            tauto
          · rw [if_neg hsame]
            simp
            tauto

theorem mem_posting_applyAll_undo
    {insertions : List Insertion} {index : SearchIndex} {column : Column} {value ouid : String} :
    ouid ∈ posting value ((applyAll Insertion.undo insertions index).table column) ↔
      Insertion.posting column value ouid ∉ insertions ∧
        ouid ∈ posting value (index.table column) := by
  induction insertions generalizing index with
  | nil => simp
  | cons insertion insertions ih =>
      rw [applyAll_cons, ih, List.mem_cons]
      cases insertion with
      | id ouid' => simp [Insertion.undo]
      | posting column' value' ouid' =>
          rw [posting_undo]
          by_cases hsame : column = column' ∧ value = value'
          · obtain ⟨rfl, rfl⟩ := hsame
            simp
            tauto
          · rw [if_neg hsame]
            simp
            tauto

/-! ## The sections whose failures are dropped -/

/-- The names before the first entry that has none, or an empty one. -/
def leadingNames : List Value → List String
  | [] => []
  | entry :: rest =>
      match nameOf entry with
      | .ok name => if name = "" then [] else name :: leadingNames rest
      | .error _ => []

/-- The entries that `addDocument` reads for a table inside a `try` block. -/
def toleratedEntries (document : Object) : Column → List Value
  | .entities => sectionEntries "entities" document
  | .versionAliases => activeAliasEntries document
  | .runs => sectionEntries "runs" document
  | _ => []

theorem made_nameSteps {ouid : String} (houid : ouid ≠ "") (column : Column) (entries : List Value) :
    made (entries.flatMap (nameSteps column ouid)) =
      (leadingNames entries).map fun name => Insertion.posting column name ouid := by
  induction entries with
  | nil => rfl
  | cons entry entries ih =>
      rw [List.flatMap_cons, nameSteps, leadingNames]
      cases hname : nameOf entry with
      | error e => rfl
      | ok name =>
          by_cases hempty : name = ""
          · simp [postingStep, hempty, made]
          · simp [postingStep, houid, hempty, made, ih]

theorem made_sectionSteps_arrayAt
    (steps : Value → List (Option Insertion)) (key : String) (document : Object) :
    made (sectionSteps steps (arrayAt key document)) =
      made ((sectionEntries key document).flatMap steps) := by
  cases harray : arrayAt key document with
  | ok entries => rw [sectionSteps, sectionEntries, arrayAt_eq_ok.1 harray]
  | error e =>
      have hentries : sectionEntries key document = [] := by
        unfold sectionEntries
        split
        · rename_i entries hlookup
          rw [arrayAt_eq_ok.2 hlookup] at harray
          cases harray
        · rfl
      rw [hentries]
      rfl

theorem made_toleratedSteps {ouid : String} (houid : ouid ≠ "") (document : Object)
    (column : Column) :
    made (toleratedSteps document ouid column) =
      (leadingNames (toleratedEntries document column)).map fun name =>
        Insertion.posting column name ouid := by
  cases column with
  | entities => rw [toleratedSteps, made_sectionSteps_arrayAt, made_nameSteps houid]; rfl
  | runs => rw [toleratedSteps, made_sectionSteps_arrayAt, made_nameSteps houid]; rfl
  | versionAliases =>
      rw [toleratedSteps, ← made_nameSteps houid, toleratedEntries, activeAliasEntries]
      cases haliases : objectAt "aliases" document with
      | ok aliases =>
          rw [objectAt_eq_ok.1 haliases]
          exact made_sectionSteps_arrayAt _ "active" aliases
      | error e =>
          split
          · rename_i aliases hlookup
            rw [objectAt_eq_ok.2 hlookup] at haliases
            cases haliases
          · rfl
  | version => rfl
  | configurations => rfl
  | configurationsAssigned => rfl

/-! ## Required sections -/

theorem postingStep_isSome_iff
    {column : Column} {ouid : String} (houid : ouid ≠ "") {r : Except Failure String} :
    (postingStep column ouid r).isSome = true ↔ ∃ value, r = .ok value ∧ value ≠ "" := by
  cases r with
  | error e => simp [postingStep]
  | ok value => by_cases hvalue : value = "" <;> simp [postingStep, houid, hvalue]

theorem completes_configurationSteps_iff
    {ouid : String} (houid : ouid ≠ "") {config : Value} :
    completes (configurationSteps ouid config) = true ↔
      ∃ name assigned, assignmentOf config = .ok (name, assigned) ∧ name ≠ "" ∧ assigned ≠ "" := by
  simp only [completes, configurationSteps, List.all_cons, List.all_nil, Bool.and_true,
    Bool.and_eq_true, postingStep_isSome_iff houid]
  cases hassignment : assignmentOf config with
  | error e => simp [assignedStep, hassignment]
  | ok pair =>
      obtain ⟨name, assigned⟩ := pair
      have hname := (assignmentOf_eq_ok.1 hassignment).1
      by_cases hempty : assigned = "" <;> by_cases hunnamed : name = "" <;>
        simp [assignedStep, hassignment, hname, hempty, hunnamed, postingStep]

/-- `addDocument` gets through the sections that it requires exactly if the version is a
non-empty string and every configuration has a name and a timestamp. -/
theorem completes_requiredSteps_iff
    {ouid : String} (houid : ouid ≠ "") (document : Object) :
    completes (requiredSteps document ouid) = true ↔
      (∃ version, stringAt "version" document = .ok version ∧ version ≠ "") ∧
        ∃ configs, arrayAt "configurations" document = .ok configs ∧ EntriesAssigned configs := by
  have hsplit : completes (requiredSteps document ouid) =
      ((postingStep .version ouid (stringAt "version" document)).isSome &&
        completes (sectionSteps (configurationSteps ouid) (arrayAt "configurations" document))) := by
    simp [completes, requiredSteps]
  rw [hsplit, Bool.and_eq_true, postingStep_isSome_iff houid]
  refine and_congr_right fun _ => ?_
  cases arrayAt "configurations" document with
  | error e => simp [sectionSteps, completes]
  | ok configs =>
      have hall : completes (configs.flatMap (configurationSteps ouid)) = true ↔
          ∀ config ∈ configs, completes (configurationSteps ouid config) = true := by
        simp [completes, List.all_flatMap]
      rw [sectionSteps, hall]
      simp only [completes_configurationSteps_iff houid, Except.ok.injEq, exists_eq_left',
        EntriesAssigned]

/-! ## The law of whole updates -/

/-- The values of the document in each table that lists ids. -/
def documentValues (document : Object) : Column → List String
  | .version => documentVersions document
  | .configurations => documentConfigurations document
  | .entities => documentEntities document
  | .versionAliases => documentAliases document
  | .runs => documentRuns document
  | .configurationsAssigned => []

/-- If `addDocument` returns true the id is listed under every value of the document,
and if it returns false the index is what it was. -/
def AddsAllOrNothing (index : SearchIndex) (document : Object) (ouid : String) : Prop :=
  ∀ added index', addDocument document ouid index = .ok added index' →
    if added then
      ∀ column, ∀ value ∈ documentValues document column, ouid ∈ posting value (index'.table column)
    else index' = index

/-- If `removeDocument` returns true no table has the id, and if it returns false the
index is what it was. -/
def RemovesAllOrNothing (index : SearchIndex) (document : Object) (ouid : String) : Prop :=
  ∀ removed index', removeDocument document ouid index = .ok removed index' →
    if removed then
      ouid ∉ index'.ouid ∧ ∀ column value, ouid ∉ posting value (index'.table column)
    else index' = index

/-- When `addDocument` is whole: the names after a nameless entry of a tolerated section
are listed already, or what precedes the failure of a required one is. -/
def AddsWhole (index : SearchIndex) (document : Object) (ouid : String) : Prop :=
  if completes (requiredSteps document ouid) then
    ∀ column, ∀ name ∈ namesOf (toleratedEntries document column),
      name ∈ leadingNames (toleratedEntries document column) ∨
        ouid ∈ posting name (index.table column)
  else ∀ insertion ∈ made (requiredSteps document ouid), AlreadyListed index insertion

/-- When `removeDocument` is whole: the id is listed only where the document is
visited, or nothing that precedes the failure is listed. -/
def RemovesWhole (index : SearchIndex) (document : Object) (ouid : String) : Prop :=
  if completes (removedSteps document ouid) then
    ∀ column value, ouid ∈ posting value (index.table column) →
      Insertion.posting column value ouid ∈ made (removedSteps document ouid)
  else ∀ insertion ∈ made (removedSteps document ouid), NotListed index insertion

theorem forall_returns_iff
    {x : IndexM Bool} {index index' : SearchIndex} {b : Bool} {p : Bool → SearchIndex → Prop}
    (hx : x index = .ok b index') :
    (∀ c other, x index = .ok c other → p c other) ↔ p b index' := by
  rw [hx]
  constructor
  · exact fun hall => hall b index' rfl
  · rintro hp c other heq
    cases heq
    exact hp

theorem removesAllOrNothing_iff
    {ouid : String} (houid : ouid ≠ "") (index : SearchIndex) (document : Object) :
    RemovesAllOrNothing index document ouid ↔ RemovesWhole index document ouid := by
  unfold RemovesAllOrNothing RemovesWhole
  rw [forall_returns_iff (removeDocument_eq houid document index)]
  by_cases hcomplete : completes (removedSteps document ouid) = true
  · rw [if_pos hcomplete, if_pos hcomplete]
    have hid : Insertion.id ouid ∈ made (removedSteps document ouid) :=
      (mem_made_of_complete (completes_iff.1 hcomplete)).2 List.mem_cons_self
    have hgone : ouid ∉ (applyAll Insertion.undo (made (removedSteps document ouid)) index).ouid :=
      notListed_applyAll_undo hid index
    simp only [hgone, not_false_eq_true, true_and, mem_posting_applyAll_undo, not_and', not_not]
  · rw [if_neg hcomplete, if_neg hcomplete]
    exact applyAll_eq_self_iff notListed_undo_self
      (fun insertion other _ h => notListed_undo insertion other h)
      (fun insertion _ h => undo_of_notListed insertion h)

theorem postingStep_eq_some
    {column : Column} {ouid : String} {r : Except Failure String} {insertion : Insertion}
    (hstep : postingStep column ouid r = some insertion) :
    ∃ value, r = .ok value ∧ insertion = .posting column value ouid := by
  cases r with
  | error e => cases hstep
  | ok value =>
      rw [postingStep] at hstep
      split at hstep
      · cases hstep
      · exact ⟨value, rfl, (Option.some.inj hstep).symm⟩

/-- The required sections are listed in three tables. -/
theorem column_of_requiredSteps
    {document : Object} {ouid value id : String} {column : Column}
    (hstep : some (Insertion.posting column value id) ∈ requiredSteps document ouid) :
    column = .version ∨ column = .configurations ∨ column = .configurationsAssigned := by
  have hposting : ∀ {column' : Column} {ouid : String} {r : Except Failure String},
      some (Insertion.posting column value id) = postingStep column' ouid r → column = column' := by
    intro column' ouid r heq
    obtain ⟨_, _, hinsertion⟩ := postingStep_eq_some heq.symm
    exact (Insertion.posting.inj hinsertion).1
  rw [requiredSteps, List.mem_append] at hstep
  rcases hstep with hfirst | hconfigs
  · rw [List.mem_cons, List.mem_singleton] at hfirst
    rcases hfirst with hid | hversion
    · cases hid
    · exact Or.inl (hposting hversion)
  · refine Or.inr ?_
    cases hentries : arrayAt "configurations" document with
    | error e => simp [hentries, sectionSteps] at hconfigs
    | ok configs =>
        rw [hentries, sectionSteps, List.mem_flatMap] at hconfigs
        obtain ⟨config, -, hconfig⟩ := hconfigs
        rw [configurationSteps, List.mem_cons, List.mem_singleton] at hconfig
        rcases hconfig with hname | hassigned
        · exact Or.inl (hposting hname)
        · rw [assignedStep] at hassigned
          split at hassigned
          · exact Or.inr (hposting hassigned)
          · cases hassigned

/-- The versions and the configurations of a document whose required sections can be
indexed are all inserted. -/
theorem mem_made_requiredSteps
    {document : Object} {ouid : String}
    (hcomplete : none ∉ requiredSteps document ouid) :
    (∀ version ∈ documentVersions document,
        Insertion.posting .version version ouid ∈ made (requiredSteps document ouid)) ∧
      ∀ configuration ∈ documentConfigurations document,
        Insertion.posting .configurations configuration ouid ∈
          made (requiredSteps document ouid) := by
  have hstep : ∀ {column : Column} {r : Except Failure String} {value : String}, r = .ok value →
      postingStep column ouid r ∈ requiredSteps document ouid →
        Insertion.posting column value ouid ∈ made (requiredSteps document ouid) := by
    intro column r value hr hmem
    rw [mem_made_of_complete hcomplete]
    cases hposting : postingStep column ouid r with
    | none => exact absurd (hposting ▸ hmem) hcomplete
    | some insertion =>
        obtain ⟨value', hr', rfl⟩ := postingStep_eq_some hposting
        rw [hr', Except.ok.injEq] at hr
        rwa [hposting, hr] at hmem
  constructor
  · intro version hversion
    have hread : stringAt "version" document = .ok version := by
      unfold documentVersions at hversion
      split at hversion
      · rename_i version' hlookup
        rw [List.mem_singleton.1 hversion]
        exact stringAt_eq_ok.2 hlookup
      · cases hversion
    exact hstep hread (by simp [requiredSteps])
  · intro configuration hconfiguration
    unfold documentConfigurations namesOf at hconfiguration
    obtain ⟨config, hconfig, hname⟩ := List.mem_filterMap.1 hconfiguration
    have hread : nameOf config = .ok configuration := by
      cases hresult : nameOf config with
      | error e => simp [hresult, Except.toOption] at hname
      | ok name => simpa [hresult, Except.toOption] using hname
    have hentries : arrayAt "configurations" document =
        .ok (sectionEntries "configurations" document) := by
      unfold sectionEntries at hconfig ⊢
      split at hconfig
      · rename_i configs hlookup
        exact arrayAt_eq_ok.2 hlookup
      · cases hconfig
    refine hstep hread ?_
    rw [requiredSteps, hentries, sectionSteps, List.mem_append, List.mem_flatMap]
    exact Or.inr ⟨config, hconfig, List.mem_cons_self⟩

theorem mem_documentValues_of_tolerated
    {document : Object} {column : Column} {name : String}
    (hname : name ∈ namesOf (toleratedEntries document column)) :
    name ∈ documentValues document column := by
  cases column with
  | entities => exact hname
  | versionAliases => exact hname
  | runs => exact hname
  | version => cases hname
  | configurations => cases hname
  | configurationsAssigned => cases hname

theorem mem_made_addedSteps
    {document : Object} {ouid : String} (houid : ouid ≠ "")
    (hcomplete : completes (requiredSteps document ouid) = true) {column : Column} {value : String}
    (hvalue : value ∈ documentValues document column) :
    Insertion.posting column value ouid ∈ made (addedSteps document ouid) ↔
      (value ∈ namesOf (toleratedEntries document column) →
        value ∈ leadingNames (toleratedEntries document column)) := by
  have hcomplete' := completes_iff.1 hcomplete
  have hmade : made (addedSteps document ouid) = made (requiredSteps document ouid) ++
      (made (toleratedSteps document ouid .entities) ++
        (made (toleratedSteps document ouid .versionAliases) ++
          made (toleratedSteps document ouid .runs))) := by
    rw [addedSteps, made_append_of_complete hcomplete', ← List.map_append, ← List.map_append,
      made_map_some]
  have htolerated : ∀ other : Column,
      Insertion.posting column value ouid ∈ made (toleratedSteps document ouid other) ↔
        value ∈ leadingNames (toleratedEntries document other) ∧ other = column := by
    intro other
    simp only [made_toleratedSteps houid, List.mem_map, Insertion.posting.injEq]
    constructor
    · rintro ⟨name, hname, rfl, rfl, -⟩
      exact ⟨hname, rfl⟩
    · rintro ⟨hname, rfl⟩
      exact ⟨value, hname, rfl, rfl, trivial⟩
  have hrequired := mem_made_requiredSteps hcomplete'
  have hcolumn : Insertion.posting column value ouid ∈ made (requiredSteps document ouid) →
      column = .version ∨ column = .configurations ∨ column = .configurationsAssigned :=
    fun hmem => column_of_requiredSteps (mem_of_mem_made hmem)
  rw [hmade]
  simp only [List.mem_append, htolerated]
  cases column with
  | version => simpa [toleratedEntries, namesOf] using hrequired.1 value hvalue
  | configurations => simpa [toleratedEntries, namesOf] using hrequired.2 value hvalue
  | configurationsAssigned => cases hvalue
  | entities =>
      have hname : value ∈ namesOf (toleratedEntries document .entities) := hvalue
      have hother : Insertion.posting .entities value ouid ∉ made (requiredSteps document ouid) :=
        fun hmem => by simpa using hcolumn hmem
      simp [hname, hother]
  | versionAliases =>
      have hname : value ∈ namesOf (toleratedEntries document .versionAliases) := hvalue
      have hother : Insertion.posting .versionAliases value ouid ∉
          made (requiredSteps document ouid) :=
        fun hmem => by simpa using hcolumn hmem
      simp [hname, hother]
  | runs =>
      have hname : value ∈ namesOf (toleratedEntries document .runs) := hvalue
      have hother : Insertion.posting .runs value ouid ∉ made (requiredSteps document ouid) :=
        fun hmem => by simpa using hcolumn hmem
      simp [hname, hother]

theorem addsAllOrNothing_iff
    {ouid : String} (houid : ouid ≠ "") (index : SearchIndex) (document : Object) :
    AddsAllOrNothing index document ouid ↔ AddsWhole index document ouid := by
  unfold AddsAllOrNothing AddsWhole
  rw [forall_returns_iff (addDocument_eq houid document index)]
  by_cases hcomplete : completes (requiredSteps document ouid) = true
  · rw [if_pos hcomplete, if_pos hcomplete]
    simp only [mem_posting_applyAll_apply]
    constructor
    · intro hlisted column name hname
      have hvalue : name ∈ documentValues document column :=
        mem_documentValues_of_tolerated hname
      rw [or_iff_not_imp_right]
      intro hnew
      exact (mem_made_addedSteps houid hcomplete hvalue).1
        ((hlisted column name hvalue).resolve_right hnew) hname
    · intro hleading column value hvalue
      rw [mem_made_addedSteps houid hcomplete hvalue]
      by_cases hname : value ∈ namesOf (toleratedEntries document column)
      · exact (hleading column value hname).imp_left fun h _ => h
      · exact Or.inl fun h => absurd h hname
  · rw [if_neg hcomplete, if_neg hcomplete]
    have hstop : none ∈ requiredSteps document ouid := by
      by_contra hnone
      exact hcomplete (completes_iff.2 hnone)
    rw [addedSteps, made_append_of_stopped hstop]
    exact applyAll_eq_self_iff alreadyListed_apply_self
      (fun insertion other _ h => alreadyListed_apply insertion other h)
      (fun insertion _ h => apply_of_alreadyListed insertion h)

/-- An update of the index is made as a whole or not at all exactly when both
conditions hold; without an id neither function returns. -/
theorem indexUpdates_allOrNothing_iff
    (index : SearchIndex) (document : Object) (ouid : String) :
    AddsAllOrNothing index document ouid ∧ RemovesAllOrNothing index document ouid ↔
      (ouid ≠ "" → AddsWhole index document ouid ∧ RemovesWhole index document ouid) := by
  by_cases houid : ouid = ""
  · subst houid
    refine iff_of_true ⟨?_, ?_⟩ fun hne => absurd rfl hne
    · intro added index' hrun
      cases hrun
    · intro removed index' hrun
      cases hrun
  · rw [addsAllOrNothing_iff houid, removesAllOrNothing_iff houid]
    exact ⟨fun h _ => h, fun h => h houid⟩

/-- A document without configurations: `addDocument` returns false with the id and the
version listed.  A removed document with entities: `removeDocument` returns true with
the id listed under them. -/
theorem indexUpdates_partial :
    ¬ (AddsAllOrNothing SearchIndex.empty [("version", .string "1")] "5a" ∧
        RemovesAllOrNothing SearchIndex.empty [("version", .string "1")] "5a") ∧
      ¬ RemovesAllOrNothing
        { SearchIndex.empty with ouid := ["5a"], version := [("1", ["5a"])],
                                 entities := [("run", ["5a"])] }
        [("version", .string "1"), ("configurations", .array []),
          ("entities", .array [.object [("name", .string "run")]]),
          ("aliases", .object [("active", .array [])]), ("runs", .array [])] "5a" := by
  constructor
  · rintro ⟨hadds, -⟩
    have hsame : _ = SearchIndex.empty := hadds false _ rfl
    cases congrArg SearchIndex.ouid hsame
  · intro hremoves
    have hgone := (hremoves true _ rfl).2 .entities "run"
    revert hgone
    decide

end ArtdaqDatabase
