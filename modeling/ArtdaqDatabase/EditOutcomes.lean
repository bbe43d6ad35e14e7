import ArtdaqDatabase.EditEffects
import ArtdaqDatabase.GuardedRun
import ArtdaqDatabase.SearchIndexDocument

/-!
# What a logged operation does

Nine operations of the builder edit a list or a text of a record and post an entry to
its update log.  On an accepted record that is neither readonly nor deleted each of
them refuses its argument, passes over an edit that is not needed, makes its edit, or
breaks off after it has written.
-/

namespace ArtdaqDatabase

open OrderedTable InPlaceUpdate InterruptedRemoval GuardedRun

/-! ## Requests -/

/-- The operations of the builder that are logged. -/
inductive LoggedOperation where
  | addAlias (veralias : Value)
  | removeAlias (veralias : Value)
  | addConfiguration (config : Value)
  | removeConfiguration (config : Value)
  | addEntity (entity : Value)
  | removeEntity (entity : Value)
  | addRun (run : Value)
  | setVersion (version : Value)
  | setCollection (collection : Value)
  deriving DecidableEq

def LoggedOperation.operation : LoggedOperation → BuilderOperation
  | .addAlias veralias => .addAlias veralias
  | .removeAlias veralias => .removeAlias veralias
  | .addConfiguration config => .addConfiguration config
  | .removeConfiguration config => .removeConfiguration config
  | .addEntity entity => .addEntity entity
  | .removeEntity entity => .removeEntity entity
  | .addRun run => .addRun run
  | .setVersion version => .setVersion version
  | .setCollection collection => .setCollection collection

/-- The event that the update log names. -/
def LoggedOperation.event : LoggedOperation → String
  | .addAlias _ => "addAlias"
  | .removeAlias _ => "removeAlias"
  | .addConfiguration _ => "addConfiguration"
  | .removeConfiguration _ => "removeConfiguration"
  | .addEntity _ => "addEntity"
  | .removeEntity _ => "removeEntity"
  | .addRun _ => "addRun"
  | .setVersion _ => "setVersion"
  | .setCollection _ => "setCollection"

/-- The lists of a record that are edited by name. -/
inductive NamedList where
  | configurations
  | entities
  | runs
  | activeAliases
  deriving DecidableEq

def NamedList.entries (record : Object) : NamedList → List Value
  | .configurations => sectionEntries "configurations" record
  | .entities => sectionEntries "entities" record
  | .runs => sectionEntries "runs" record
  | .activeAliases => activeAliasEntries record

def NamedList.element : NamedList → Overlay
  | .activeAliases => ovlAlias
  | _ => ovlKeyValueTimeStamp false

/-- What an operation asks of the record, its argument overlaid. -/
inductive EditRequest where
  | add (list : NamedList) (entry : Value)
  | remove (list : NamedList) (entry : Value)
  | setText (key : String) (text : String)
  deriving DecidableEq

def LoggedOperation.request (env : Environment) : LoggedOperation → Except Failure EditRequest
  | .addAlias veralias => (ovlAlias env veralias).map (.add .activeAliases)
  | .removeAlias veralias => (ovlAlias env veralias).map (.remove .activeAliases)
  | .addConfiguration config => (ovlConfiguration env config).map (.add .configurations)
  | .removeConfiguration config => (ovlConfiguration env config).map (.remove .configurations)
  | .addEntity entity => (ovlEntity env entity).map (.add .entities)
  | .removeEntity entity => (ovlEntity env entity).map (.remove .entities)
  | .addRun run => (ovlRun env run).map (.add .runs)
  | .setVersion version =>
      (findChildValue ["name"] version >>= ovlStringKeyValue env >>= Value.getString).map
        (.setText "version")
  | .setCollection collection =>
      (findChild "collection" collection >>= findChildValue ["collection"] >>=
        ovlStringKeyValue env >>= Value.getString).map (.setText "collection")

/-! ## Arguments -/

/-- What the overlay makes of a value it takes as it is from then on. -/
def Overlay.Settles (f : Overlay) : Prop :=
  ∀ env v w, f env v = .ok w → f.Accepts w

theorem ovlKeyValue_settles : Overlay.Settles ovlKeyValue :=
  fun _ _ w _ => ovlKeyValue_accepts w

/-- The second overlay of the timestamp takes what the first has printed only when it
starts with the century. -/
theorem ovlAssigned_settles : Overlay.Settles ovlAssigned := by
  intro env v w hw
  simp only [ovlAssigned, bind_eq_ok] at hw
  obtain ⟨u, hu, hw⟩ := hw
  obtain ⟨s, t, -, ht, rfl⟩ := ovlTimeStamp_eq_ok.1 hu
  obtain ⟨s', t', hs', ht', rfl⟩ := ovlTimeStamp_eq_ok.1 hw
  rw [Value.string.injEq] at hs'
  subst hs'
  rcases confirmIso8601Timestamp_eq_ok ht' with ⟨rfl, htwo⟩ | ⟨hletter, -⟩
  · exact ovlAssigned_accepts htwo
  · rcases confirmIso8601Timestamp_eq_ok ht with ⟨rfl, htwo⟩ | ⟨-, hprinted⟩
    · rw [confirmIso8601Timestamp_of_two htwo, Except.ok.injEq] at ht'
      exact ovlAssigned_accepts (ht' ▸ htwo)
    · exact absurd hletter hprinted

theorem overlayObject_settles
    {sections : List Section} (hnodup : (sections.map Section.key).Nodup)
    (hsettles : ∀ s ∈ sections, s.normalize.Settles) :
    Overlay.Settles (overlayObject sections) := by
  intro env v w hw
  obtain ⟨o, o', rfl, happly, rfl⟩ := overlayObject_eq_ok.1 hw
  apply (overlayObject_accepts_iff hnodup).2
  intro s hs
  obtain ⟨w, hresult⟩ := applySections_result hnodup happly hs
  obtain ⟨u, -, hnormalized⟩ := hresult.normalized
  exact ⟨⟨w, hresult.lookup_eq, hsettles s hs env u w hnormalized⟩, hresult.once⟩

theorem ovlKeyValueTimeStamp_settles (hasRemoved : Bool) :
    Overlay.Settles (ovlKeyValueTimeStamp hasRemoved) := by
  refine overlayObject_settles (keyValueSections_nodup hasRemoved) fun s hs => ?_
  cases hasRemoved <;>
    simp only [keyValueSections, Bool.false_eq_true, if_false, if_true, List.cons_append,
      List.nil_append, List.append_nil, List.mem_cons, List.not_mem_nil, or_false] at hs
  · rcases hs with rfl | rfl
    · exact ovlKeyValue_settles
    · exact ovlAssigned_settles
  · rcases hs with rfl | rfl | rfl
    · exact ovlKeyValue_settles
    · exact ovlAssigned_settles
    · exact ovlKeyValue_settles

theorem NamedList.element_settles (list : NamedList) : list.element.Settles := by
  cases list <;> exact ovlKeyValueTimeStamp_settles _

/-! ## Lists of an accepted record -/

def aliasesOf (record : Object) : Object :=
  match lookup "aliases" record with
  | some (.object aliases) => aliases
  | _ => []

/-- The member of the record that holds the list. -/
def NamedList.key : NamedList → String
  | .configurations => "configurations"
  | .entities => "entities"
  | .runs => "runs"
  | .activeAliases => "aliases"

def NamedList.setEntries (entries : List Value) (record : Object) : NamedList → Object
  | .activeAliases =>
      set "aliases" (.object (set "active" (.array entries) (aliasesOf record))) record
  | list => set list.key (.array entries) record

section Lists

variable {record : Object} {list : NamedList}

theorem NamedList.key_ne (list : NamedList) : list.key ≠ "bookkeeping" := by
  cases list <;> decide

theorem NamedList.section_mem (hlist : list ≠ .activeAliases) :
    listSection list.key (ovlKeyValueTimeStamp false) ∈ recordSections := by
  cases list with
  | configurations => exact entries_section.2.1
  | entities => exact entries_section.1
  | runs => exact entries_section.2.2
  | activeAliases => exact absurd rfl hlist

theorem NamedList.lookup_entries
    (haccepted : Accepted record) (hlist : list ≠ .activeAliases) :
    lookup list.key record = some (.array (list.entries record)) ∧
      ∀ x ∈ list.entries record, (ovlKeyValueTimeStamp false).Accepts x := by
  obtain ⟨entries, hlookup, hentries⟩ := haccepted.list (NamedList.section_mem hlist)
  have heq : list.entries record = entries := by
    cases list with
    | activeAliases => exact absurd rfl hlist
    | _ => simp only [NamedList.entries, sectionEntries, NamedList.key] at hlookup ⊢; rw [hlookup]
  rw [heq]
  exact ⟨hlookup, hentries⟩

theorem setEntries_fixed (hlist : list ≠ .activeAliases) (entries : List Value)
    (record : Object) :
    list.setEntries entries record = set list.key (.array entries) record := by
  cases list with
  | activeAliases => exact absurd rfl hlist
  | _ => rfl

theorem element_fixed (hlist : list ≠ .activeAliases) :
    list.element = ovlKeyValueTimeStamp false := by
  cases list with
  | activeAliases => exact absurd rfl hlist
  | _ => rfl

/-- The aliases of an accepted record. -/
structure AliasLists (record : Object) (history : List Value) : Prop where
  lookup_eq : lookup "aliases" record = some (.object (aliasesOf record))
  holds : ∀ s ∈ aliasesSections, s.Holds (aliasesOf record)
  active : lookup "active" (aliasesOf record) = some (.array (activeAliasEntries record))
  history : lookup "history" (aliasesOf record) = some (.array history)

theorem Accepted.aliasLists (haccepted : Accepted record) :
    ∃ history, AliasLists record history := by
  obtain ⟨o, hlookup, ho⟩ := haccepted.aliases
  obtain ⟨active, hactive, -⟩ := aliases_list ho (Or.inl rfl)
  obtain ⟨history, hhistory, -⟩ := aliases_list ho (Or.inr rfl)
  have hof : aliasesOf record = o := by rw [aliasesOf, hlookup]
  have hentries : activeAliasEntries record = active := by
    rw [activeAliasEntries, hlookup]
    simp only [sectionEntries, hactive]
  refine ⟨history, ?_, ?_, ?_, ?_⟩
  · rw [hof, hlookup]
  · rw [hof]
    exact ho
  · rw [hof, hentries, hactive]
  · rw [hof, hhistory]

theorem NamedList.exists_stampRemoved
    {entry : Value} (hentry : list.element.Accepts entry) (env : Environment) :
    ∃ moved, stampRemoved env entry = .ok moved ∧ list.element.Accepts moved := by
  cases list <;> exact stampRemoved_accepts hentry env

theorem NamedList.entries_accepts (haccepted : Accepted record) (list : NamedList) :
    ∀ x ∈ list.entries record, list.element.Accepts x := by
  by_cases hlist : list = .activeAliases
  · subst hlist
    obtain ⟨history, haliases⟩ := haccepted.aliasLists
    obtain ⟨active, hactive, hentries⟩ := aliases_list haliases.holds (Or.inl rfl)
    rw [haliases.active, Option.some.injEq, Value.array.injEq] at hactive
    subst hactive
    exact hentries
  · rw [element_fixed hlist]
    exact (NamedList.lookup_entries haccepted hlist).2

/-- The record stays accepted when a list gets entries that its overlay takes. -/
theorem kept_setEntries
    (haccepted : Accepted record) {entries : List Value}
    (hentries : ∀ x ∈ entries, list.element.Accepts x) :
    Kept record (list.setEntries entries record) := by
  by_cases hlist : list = .activeAliases
  · subst hlist
    obtain ⟨history, haliases⟩ := haccepted.aliasLists
    exact kept_set_aliases haccepted (holds_set_aliases haliases.holds (Or.inl rfl) hentries)
  · rw [setEntries_fixed hlist]
    rw [element_fixed hlist] at hentries
    exact kept_set_section haccepted (NamedList.section_mem hlist) list.key_ne
      (ovlFixedList_accepts_iff.2 hentries)

theorem setEntries_self (haccepted : Accepted record) (list : NamedList) :
    list.setEntries (list.entries record) record = record := by
  by_cases hlist : list = .activeAliases
  · subst hlist
    obtain ⟨history, haliases⟩ := haccepted.aliasLists
    simp only [NamedList.setEntries, NamedList.entries, set_of_lookup haliases.active,
      set_of_lookup haliases.lookup_eq]
  · rw [setEntries_fixed hlist]
    exact set_of_lookup (NamedList.lookup_entries haccepted hlist).1

/-- A list that is written is read back, and the other lists are as before. -/
theorem entries_setEntries (list list' : NamedList) (entries : List Value) (record : Object) :
    list'.entries (list.setEntries entries record) =
      if list' = list then entries else list'.entries record := by
  cases list <;> cases list' <;>
    simp [NamedList.setEntries, NamedList.entries, NamedList.key, sectionEntries,
      activeAliasEntries, lookup_set]

theorem entries_withUpdate (list : NamedList) (entry : Value) (record : Object) :
    list.entries (withUpdate entry record) = list.entries record := by
  cases list <;>
    simp [NamedList.entries, sectionEntries, activeAliasEntries, lookup_withUpdate]

theorem entries_set {key : String} (hkey : list.key ≠ key) (v : Value) (record : Object) :
    list.entries (set key v record) = list.entries record := by
  cases list <;> simp only [NamedList.key] at hkey <;>
    simp [NamedList.entries, sectionEntries, activeAliasEntries, lookup_set_of_ne hkey]

end Lists

/-! ## Outcomes -/

section Outcomes

variable {env : Environment} {record : Object} {list : NamedList} {entry : Value}

/-- `add` passes over a name that is there, and is logged all the same. -/
def Added (env : Environment) (event : String) (list : NamedList) (entry : Value)
    (record : Object) (result : EStateM.Result Failure Object Unit) : Prop :=
  (∃ e, containsName entry (list.entries record) = .error e ∧ result = .error e record) ∨
    ∃ found, containsName entry (list.entries record) = .ok found ∧
      result = .ok () (withUpdate (updateEntry env event entry)
        (list.setEntries (addNamed entry (list.entries record)) record))

theorem addToList_run
    (haccepted : Accepted record) (hwritable : Writable record) (hlist : list ≠ .activeAliases)
    (hentry : (ovlKeyValueTimeStamp false).Accepts entry) (event : String) :
    Added env event list entry record
      (addToList env event list.key (ovlKeyValueTimeStamp false) entry record) := by
  obtain ⟨hlookup, hentries⟩ := NamedList.lookup_entries haccepted hlist
  have hadd := fixedListAdd_run env hlookup hentries hentry
  rw [addToList, whenWritable_run hwritable]
  cases hfound : containsName entry (list.entries record) with
  | error e =>
      rw [hfound] at hadd
      exact Or.inl ⟨e, hfound, bind_error hadd⟩
  | ok found =>
      rw [hfound] at hadd
      have hall : ∀ x ∈ addNamed entry (list.entries record), list.element.Accepts x := by
        rw [element_fixed hlist]
        intro x hx
        rcases mem_addNamed hx with hx | rfl
        · exact hentries x hx
        · exact hentry
      have hkept := kept_setEntries haccepted hall
      rw [setEntries_fixed hlist] at hkept
      have hpost := postUpdate_run hkept.accepted (hkept.writable hwritable)
        (updateEntry_accepts env event (Or.inr hentry))
      refine Or.inr ⟨found, hfound, ?_⟩
      rw [bind_run hadd, hpost, setEntries_fixed hlist]

theorem recordAddAlias_run
    (haccepted : Accepted record) (hwritable : Writable record)
    (hentry : ovlAlias.Accepts entry) :
    Added env "addAlias" .activeAliases entry record (recordAddAlias env entry record) := by
  obtain ⟨history, haliases⟩ := haccepted.aliasLists
  have hentries := NamedList.entries_accepts haccepted .activeAliases
  have hadd := movableListAdd_run env haliases.lookup_eq haliases.active hentries hentry
  rw [recordAddAlias, whenWritable_run hwritable]
  cases hfound : containsName entry (activeAliasEntries record) with
  | error e =>
      rw [hfound] at hadd
      exact Or.inl ⟨e, hfound, bind_error hadd⟩
  | ok found =>
      rw [hfound] at hadd
      have hall : ∀ x ∈ addNamed entry (activeAliasEntries record), ovlAlias.Accepts x := by
        intro x hx
        rcases mem_addNamed hx with hx | rfl
        · exact hentries x hx
        · exact hentry
      have hkept : Kept record (NamedList.activeAliases.setEntries
          (addNamed entry (activeAliasEntries record)) record) := kept_setEntries haccepted hall
      have hpost := postUpdate_run hkept.accepted (hkept.writable hwritable)
        (updateEntry_accepts env "addAlias" (Or.inr (keyValue_accepts_of_alias hentry)))
      exact Or.inr ⟨found, hfound, (bind_run hadd).trans hpost⟩

/-- Where a removal puts what it has taken off the list. -/
def NamedList.shelve (moved : Value) (record : Object) : NamedList → Object
  | .activeAliases =>
      set "aliases" (.object (set "history"
        (.array (sectionEntries "history" (aliasesOf record) ++ [moved])) (aliasesOf record)))
        record
  | _ => record

/-- A removal from a fixed list without entries does nothing and is logged; one that
takes none or several entries throws when they are gone. -/
def Removed (env : Environment) (event : String) (list : NamedList) (entry moved : Value)
    (record : Object) (result : EStateM.Result Failure Object Unit) : Prop :=
  (list ≠ .activeAliases ∧ list.entries record = [] ∧
      result = .ok () (withUpdate (updateEntry env event entry) record)) ∨
    (RemovesOne entry (list.entries record) ∧
      result = .ok () (withUpdate (updateEntry env event moved)
        (list.shelve moved
          (list.setEntries (removeNamed entry (list.entries record)) record)))) ∨
    (¬ RemovesOne entry (list.entries record) ∧
      (list = .activeAliases ∨ list.entries record ≠ []) ∧
      ∃ e, result =
        .error e (list.setEntries (removeNamed entry (list.entries record)) record))

theorem removeFromList_run
    (haccepted : Accepted record) (hwritable : Writable record) (hlist : list ≠ .activeAliases)
    (hentry : (ovlKeyValueTimeStamp false).Accepts entry) (event : String) {moved : Value}
    (hmoved : stampRemoved env entry = .ok moved) :
    Removed env event list entry moved record
      (removeFromList env event list.key (ovlKeyValueTimeStamp false) entry record) := by
  obtain ⟨hlookup, hentries⟩ := NamedList.lookup_entries haccepted hlist
  obtain ⟨moved', hmoved', hacceptsMoved⟩ := stampRemoved_accepts hentry env
  rw [hmoved, Except.ok.injEq] at hmoved'
  subst hmoved'
  rw [removeFromList, whenWritable_run hwritable]
  by_cases hempty : list.entries record = []
  · have hlookupList : arrayAt list.key record = .ok (list.entries record) :=
      arrayAt_eq_ok.2 hlookup
    have hrun : fixedListRemove env list.key (ovlKeyValueTimeStamp false) entry record =
        .ok entry record := by
      rw [fixedListRemove, bind_run (fetch_ok hlookupList), if_pos hempty]
      rfl
    have hpost := postUpdate_run haccepted hwritable
      (updateEntry_accepts env event (Or.inr hentry))
    exact Or.inl ⟨hlist, hempty, (bind_run hrun).trans hpost⟩
  · rcases fixedListRemove_run env hlookup hentries hmoved hempty with
      ⟨hone, hrun⟩ | ⟨hnot, e, hrun⟩
    · have hall : ∀ x ∈ removeNamed entry (list.entries record), list.element.Accepts x :=
        fun x hx => NamedList.entries_accepts haccepted list x (mem_of_mem_removeNamed hx)
      have hkept := kept_setEntries haccepted hall
      rw [setEntries_fixed hlist] at hkept
      have hpost := postUpdate_run hkept.accepted (hkept.writable hwritable)
        (updateEntry_accepts env event (Or.inr hacceptsMoved))
      refine Or.inr (Or.inl ⟨hone, (bind_run hrun).trans ?_⟩)
      rw [hpost, setEntries_fixed hlist]
      cases list with
      | activeAliases => exact absurd rfl hlist
      | _ => rfl
    · refine Or.inr (Or.inr ⟨hnot, Or.inr hempty, e, ?_⟩)
      rw [bind_error hrun, setEntries_fixed hlist]

/-- The aliases when an entry has gone from the active ones to the history. -/
theorem shelve_setEntries
    {history : List Value} (haliases : AliasLists record history) (entries : List Value)
    (moved : Value) :
    NamedList.shelve moved (NamedList.setEntries entries record .activeAliases)
        .activeAliases =
      set "aliases" (.object (set "history" (.array (history ++ [moved]))
        (set "active" (.array entries) (aliasesOf record)))) record := by
  have hof : aliasesOf (NamedList.setEntries entries record .activeAliases) =
      set "active" (.array entries) (aliasesOf record) := by
    rw [aliasesOf, NamedList.setEntries, lookup_set_self]
  have hhistory : sectionEntries "history" (set "active" (.array entries) (aliasesOf record)) =
      history := by
    rw [sectionEntries, lookup_set_of_ne (by decide), haliases.history]
  rw [NamedList.shelve, hof, hhistory, NamedList.setEntries, set_set]

theorem recordRemoveAlias_run
    (haccepted : Accepted record) (hwritable : Writable record)
    (hentry : ovlAlias.Accepts entry) {moved : Value}
    (hmoved : stampRemoved env entry = .ok moved) :
    Removed env "removeAlias" .activeAliases entry moved record
      (recordRemoveAlias env entry record) := by
  obtain ⟨history, haliases⟩ := haccepted.aliasLists
  obtain ⟨moved', hmoved', hacceptsMoved⟩ := stampRemoved_accepts hentry env
  rw [hmoved, Except.ok.injEq] at hmoved'
  subst hmoved'
  have hentries := NamedList.entries_accepts haccepted .activeAliases
  obtain ⟨history', hhistory', hold⟩ := aliases_list haliases.holds (Or.inr rfl)
  rw [haliases.history, Option.some.injEq, Value.array.injEq] at hhistory'
  subst hhistory'
  rw [recordRemoveAlias, whenWritable_run hwritable]
  rcases movableListRemove_run env haliases.lookup_eq haliases.active haliases.history hentries
    hold hmoved hacceptsMoved with ⟨hone, hrun⟩ | ⟨hnot, e, hrun⟩
  · have hstay : ∀ x ∈ removeNamed entry (activeAliasEntries record), ovlAlias.Accepts x :=
      fun x hx => hentries x (mem_of_mem_removeNamed hx)
    have hgone : ∀ x ∈ history ++ [moved], ovlAlias.Accepts x := by
      intro x hx
      rcases List.mem_append.1 hx with hx | hx
      · exact hold x hx
      · exact List.mem_singleton.1 hx ▸ hacceptsMoved
    have hkept := kept_set_aliases haccepted (holds_set_aliases
      (holds_set_aliases haliases.holds (Or.inl rfl) hstay) (Or.inr rfl) hgone)
    have hpost := postUpdate_run hkept.accepted (hkept.writable hwritable)
      (updateEntry_accepts env "removeAlias" (Or.inr (keyValue_accepts_of_alias hacceptsMoved)))
    refine Or.inr (Or.inl ⟨hone, (bind_run hrun).trans ?_⟩)
    rw [hpost, shelve_setEntries haliases]
    rfl
  · exact Or.inr (Or.inr ⟨hnot, Or.inl rfl, e, bind_error hrun⟩)

/-- A text that is there already is not set again. -/
theorem setText_run
    (haccepted : Accepted record) (hwritable : Writable record) {key : String}
    (hsection : textSection key ∈ recordSections) (hkey : key ≠ "bookkeeping") {text : String}
    (htext : text ≠ "") (event : String) :
    (lookup key record = some (.string text) ∧
        setText env event key (.string text) record = .ok () record) ∨
      (lookup key record ≠ some (.string text) ∧
        setText env event key (.string text) record =
          .ok () (withUpdate (updateEntry env event (.string text))
            (set key (.string text) record))) := by
  obtain ⟨old, hlookup⟩ := haccepted.text hsection
  have hstring : stringAt key record = .ok old := stringAt_eq_ok.2 hlookup
  have hnew : (lift (Value.string text).getString : RecordM String) record =
      .ok text record := rfl
  rw [setText, whenWritable_run hwritable, bind_run (fetch_ok hstring), bind_run hnew]
  by_cases hsame : old = text
  · rw [if_pos hsame]
    rw [hsame] at hlookup
    exact Or.inl ⟨hlookup, rfl⟩
  · have hset := kept_set_section haccepted hsection hkey (ovlStringKeyValue_accepts htext)
    have hpost := postUpdate_run hset.accepted (hset.writable hwritable)
      (updateEntry_accepts env event (Or.inl ⟨text, rfl⟩))
    rw [if_neg hsame]
    refine Or.inr ⟨?_, (bind_run (write_run _ _)).trans hpost⟩
    rw [hlookup]
    intro h
    rw [Option.some.injEq, Value.string.injEq] at h
    exact hsame h

end Outcomes

/-! ## Operations -/

section Operations

variable {env : Environment} {record : Object} {op : LoggedOperation} {list : NamedList}
  {entry : Value}

theorem exceptMap_eq_ok {α β : Type} {x : Except Failure α} {f : α → β} {b : β} :
    x.map f = .ok b ↔ ∃ a, x = .ok a ∧ f a = b := by
  cases x <;> simp [Except.map]

theorem exists_text_of_overlaid
    {found : Except Failure Value} {ovl : Value}
    (hoverlaid : found >>= ovlStringKeyValue env = .ok ovl) :
    ∃ text, ovl = .string text ∧ text ≠ "" := by
  obtain ⟨v, -, hv⟩ := bind_eq_ok.1 hoverlaid
  obtain ⟨s, -, rfl⟩ := ovlStringKeyValue_eq_ok.1 hv
  refine ⟨_, rfl, ?_⟩
  split
  · decide
  · assumption

/-- An argument that is not overlaid leaves the record alone. -/
theorem perform_of_refused {e : Failure} (hrequest : op.request env = .error e) :
    op.operation.perform env record = .error e record := by
  have hlist : ∀ {overlaid : Except Failure Value} {f : Value → EditRequest}
      {edit : Value → RecordM Unit}, overlaid.map f = .error e →
      withOverlay overlaid edit record = .error e record := by
    intro overlaid f edit h
    cases overlaid with
    | ok v => simp [Except.map] at h
    | error e' =>
        simp only [Except.map, Except.error.injEq] at h
        rw [h]
        rfl
  have htext : ∀ {found : Except Failure Value} {f : String → EditRequest}
      {edit : Value → RecordM Unit},
      (found >>= ovlStringKeyValue env >>= Value.getString).map f = .error e →
      withOverlay (found >>= ovlStringKeyValue env) edit record = .error e record := by
    intro found f edit h
    cases hoverlaid : found >>= ovlStringKeyValue env with
    | ok v =>
        obtain ⟨text, rfl, -⟩ := exists_text_of_overlaid hoverlaid
        rw [hoverlaid] at h
        simp [bind, Except.bind, Value.getString, Except.map] at h
    | error e' =>
        rw [hoverlaid] at h
        simp only [bind, Except.bind, Except.map, Except.error.injEq] at h
        rw [h]
        rfl
  cases op with
  | setVersion version => exact htext hrequest
  | setCollection collection => exact htext hrequest
  | _ => exact hlist hrequest

/-- A frozen record is left alone. -/
theorem perform_of_not_writable (hnot : ¬ Writable record) (env : Environment)
    (op : LoggedOperation) :
    ∃ e, op.operation.perform env record = .error e record := by
  have hrefused : ∀ (overlaid : Except Failure Value) (edit : Value → RecordM Unit),
      ∃ e, withOverlay overlaid (fun ovl => whenWritable (edit ovl)) record =
        .error e record := by
    intro overlaid edit
    cases overlaid with
    | error e => exact ⟨e, rfl⟩
    | ok ovl => exact whenWritable_of_not_writable hnot (edit ovl)
  cases op <;> exact hrefused _ _

theorem withOverlay_run
    {overlaid : Except Failure Value} {ovl : Value} (hoverlaid : overlaid = .ok ovl)
    (edit : Value → RecordM Unit) (record : Object) :
    withOverlay overlaid edit record = edit ovl record :=
  bind_run (lift_run hoverlaid record)

section Run

variable (haccepted : Accepted record) (hwritable : Writable record)
include haccepted hwritable

theorem perform_add (hrequest : op.request env = .ok (.add list entry)) :
    Added env op.event list entry record (op.operation.perform env record) := by
  have hfixed : ∀ (list' : NamedList) {argument : Value} (event : String),
      list' ≠ .activeAliases →
      (ovlKeyValueTimeStamp false env argument).map (EditRequest.add list') =
        .ok (.add list entry) →
      Added env event list entry record
        (withOverlay (ovlKeyValueTimeStamp false env argument)
          (addToList env event list'.key (ovlKeyValueTimeStamp false)) record) := by
    intro list' argument event hlist h
    obtain ⟨ovl, hovl, heq⟩ := exceptMap_eq_ok.1 h
    rw [EditRequest.add.injEq] at heq
    obtain ⟨rfl, rfl⟩ := heq
    rw [withOverlay_run hovl]
    exact addToList_run haccepted hwritable hlist
      (ovlKeyValueTimeStamp_settles false env argument ovl hovl) event
  cases op with
  | addConfiguration config => exact hfixed .configurations _ (by decide) hrequest
  | addEntity entity => exact hfixed .entities _ (by decide) hrequest
  | addRun run => exact hfixed .runs _ (by decide) hrequest
  | addAlias veralias =>
      obtain ⟨ovl, hovl, heq⟩ := exceptMap_eq_ok.1 hrequest
      rw [EditRequest.add.injEq] at heq
      obtain ⟨rfl, rfl⟩ := heq
      rw [LoggedOperation.operation, BuilderOperation.perform, withOverlay_run hovl]
      exact recordAddAlias_run haccepted hwritable
        (ovlKeyValueTimeStamp_settles true env veralias ovl hovl)
  | _ =>
      obtain ⟨ovl, -, heq⟩ := exceptMap_eq_ok.1 hrequest
      cases heq

theorem perform_remove
    (hrequest : op.request env = .ok (.remove list entry)) {moved : Value}
    (hmoved : stampRemoved env entry = .ok moved) :
    Removed env op.event list entry moved record (op.operation.perform env record) := by
  have hfixed : ∀ (list' : NamedList) {argument : Value} (event : String),
      list' ≠ .activeAliases →
      (ovlKeyValueTimeStamp false env argument).map (EditRequest.remove list') =
        .ok (.remove list entry) →
      Removed env event list entry moved record
        (withOverlay (ovlKeyValueTimeStamp false env argument)
          (removeFromList env event list'.key (ovlKeyValueTimeStamp false)) record) := by
    intro list' argument event hlist h
    obtain ⟨ovl, hovl, heq⟩ := exceptMap_eq_ok.1 h
    rw [EditRequest.remove.injEq] at heq
    obtain ⟨rfl, rfl⟩ := heq
    rw [withOverlay_run hovl]
    exact removeFromList_run haccepted hwritable hlist
      (ovlKeyValueTimeStamp_settles false env argument ovl hovl) event hmoved
  cases op with
  | removeConfiguration config => exact hfixed .configurations _ (by decide) hrequest
  | removeEntity entity => exact hfixed .entities _ (by decide) hrequest
  | removeAlias veralias =>
      obtain ⟨ovl, hovl, heq⟩ := exceptMap_eq_ok.1 hrequest
      rw [EditRequest.remove.injEq] at heq
      obtain ⟨rfl, rfl⟩ := heq
      rw [LoggedOperation.operation, BuilderOperation.perform, withOverlay_run hovl]
      exact recordRemoveAlias_run haccepted hwritable
        (ovlKeyValueTimeStamp_settles true env veralias ovl hovl) hmoved
  | _ =>
      obtain ⟨ovl, -, heq⟩ := exceptMap_eq_ok.1 hrequest
      cases heq

/-- What the setters do: nothing for the text that is there. -/
def TextSet (env : Environment) (event key text : String) (record : Object)
    (result : EStateM.Result Failure Object Unit) : Prop :=
  (lookup key record = some (.string text) ∧ result = .ok () record) ∨
    (lookup key record ≠ some (.string text) ∧
      result = .ok () (withUpdate (updateEntry env event (.string text))
        (set key (.string text) record)))

theorem perform_setText
    {key text : String} (hrequest : op.request env = .ok (.setText key text)) :
    textSection key ∈ recordSections ∧ key ≠ "bookkeeping" ∧ text ≠ "" ∧
      TextSet env op.event key text record (op.operation.perform env record) := by
  have hset : ∀ {key' : String} {found : Except Failure Value} (event : String),
      textSection key' ∈ recordSections → key' ≠ "bookkeeping" →
      (found >>= ovlStringKeyValue env >>= Value.getString).map (EditRequest.setText key') =
        .ok (.setText key text) →
      textSection key ∈ recordSections ∧ key ≠ "bookkeeping" ∧ text ≠ "" ∧
        TextSet env event key text record
          (withOverlay (found >>= ovlStringKeyValue env) (setText env event key') record) := by
    intro key' found event hsection hkey h
    obtain ⟨new, hnew, heq⟩ := exceptMap_eq_ok.1 h
    rw [EditRequest.setText.injEq] at heq
    obtain ⟨rfl, rfl⟩ := heq
    obtain ⟨v, hv, hstring⟩ := bind_eq_ok.1 hnew
    rw [getString_eq_ok] at hstring
    subst hstring
    obtain ⟨text', htext', htext⟩ := exists_text_of_overlaid hv
    rw [Value.string.injEq] at htext'
    subst htext'
    rw [withOverlay_run hv]
    exact ⟨hsection, hkey, htext, setText_run haccepted hwritable hsection hkey htext event⟩
  cases op with
  | setVersion version =>
      exact hset "setVersion" (by simp [recordSections, textSection]) (by decide) hrequest
  | setCollection collection =>
      exact hset "setCollection" (by simp [recordSections, textSection]) (by decide) hrequest
  | _ =>
      obtain ⟨ovl, -, heq⟩ := exceptMap_eq_ok.1 hrequest
      cases heq

/-- A logged operation keeps a record accepted and its flags as they are. -/
theorem kept_perform (env : Environment) (op : LoggedOperation) :
    Kept record (builderEdit env op.operation record) := by
  have hlist : ∀ {hasRemoved : Bool} {argument : Value} {edit : Value → RecordM Unit},
      (∀ ovl, (ovlKeyValueTimeStamp hasRemoved).Accepts ovl →
        Kept record (after (edit ovl) record)) →
      Kept record
        (after (withOverlay (ovlKeyValueTimeStamp hasRemoved env argument) edit) record) := by
    intro hasRemoved argument edit hedit
    cases hovl : ovlKeyValueTimeStamp hasRemoved env argument with
    | error e => exact Kept.refl haccepted
    | ok ovl => exact hedit ovl (ovlKeyValueTimeStamp_settles hasRemoved env argument ovl hovl)
  have htext : ∀ {key : String} {found : Except Failure Value} (event : String),
      textSection key ∈ recordSections → key ≠ "bookkeeping" →
      Kept record (after (withOverlay (found >>= ovlStringKeyValue env)
        (setText env event key)) record) := by
    intro key found event hsection hkey
    cases hovl : found >>= ovlStringKeyValue env with
    | error e => exact Kept.refl haccepted
    | ok ovl =>
        obtain ⟨text, rfl, htext⟩ := exists_text_of_overlaid hovl
        exact (setText_edit env haccepted hwritable hsection hkey htext event).1
  cases op with
  | addAlias veralias =>
      exact hlist fun ovl hovl => (addAlias_edit env haccepted hwritable hovl).kept
  | removeAlias veralias =>
      exact hlist fun ovl hovl => (removeAlias_edit env haccepted hwritable hovl).kept
  | addConfiguration config =>
      exact hlist fun ovl hovl =>
        (addToList_edit env haccepted hwritable entries_section.2.1 (by decide) hovl _).kept
  | removeConfiguration config =>
      exact hlist fun ovl hovl =>
        (removeFromList_edit env haccepted hwritable entries_section.2.1 (by decide) hovl _).kept
  | addEntity entity =>
      exact hlist fun ovl hovl =>
        (addToList_edit env haccepted hwritable entries_section.1 (by decide) hovl _).kept
  | removeEntity entity =>
      exact hlist fun ovl hovl =>
        (removeFromList_edit env haccepted hwritable entries_section.1 (by decide) hovl _).kept
  | addRun run =>
      exact hlist fun ovl hovl =>
        (addToList_edit env haccepted hwritable entries_section.2.2 (by decide) hovl _).kept
  | setVersion version => exact htext _ (by simp [recordSections, textSection]) (by decide)
  | setCollection collection => exact htext _ (by simp [recordSections, textSection]) (by decide)

end Run

theorem setText_key {key text : String} (hrequest : op.request env = .ok (.setText key text))
    (list : NamedList) :
    list.key ≠ key := by
  cases op with
  | setVersion version =>
      obtain ⟨text', -, heq⟩ := exceptMap_eq_ok.1 hrequest
      cases heq
      cases list <;> decide
  | setCollection collection =>
      obtain ⟨text', -, heq⟩ := exceptMap_eq_ok.1 hrequest
      cases heq
      cases list <;> decide
  | _ =>
      obtain ⟨ovl, -, heq⟩ := exceptMap_eq_ok.1 hrequest
      cases heq

/-- The entry of a request is one that its list takes as it is. -/
theorem request_accepts
    (hrequest : op.request env = .ok (.add list entry) ∨
      op.request env = .ok (.remove list entry)) :
    list.element.Accepts entry := by
  rcases hrequest with hrequest | hrequest <;> cases op <;>
    obtain ⟨ovl, hovl, heq⟩ := exceptMap_eq_ok.1 hrequest <;> cases heq <;>
    exact ovlKeyValueTimeStamp_settles _ env _ _ hovl

end Operations

/-! ## Sequences -/

/-- One logged operation at its own time. -/
def loggedEdit (record : Object) (p : Environment × LoggedOperation) : Object :=
  builderEdit p.1 p.2.operation record

/-- The record after a sequence of logged operations. -/
def loggedEdits (record : Object) (ops : List (Environment × LoggedOperation)) : Object :=
  run loggedEdit record ops

/-- The record is accepted, and neither readonly nor deleted. -/
def Editable (record : Object) : Prop :=
  Accepted record ∧ Writable record

theorem editable_loggedEdit
    (record : Object) (p : Environment × LoggedOperation) (heditable : Editable record) :
    Editable (loggedEdit record p) := by
  have hkept := kept_perform heditable.1 heditable.2 p.1 p.2
  exact ⟨hkept.accepted, hkept.writable heditable.2⟩

/-! ## An accepted record -/

/-- What the overlay leaves of a document is accepted once it is overlaid again. -/
theorem accepted_of_overlaid
    {env env' : Environment} {document record record' : Object}
    (hfirst : ovlDatabaseRecord env document = .ok record)
    (hsecond : ovlDatabaseRecord env' record = .ok record') :
    Accepted record := by
  have hnormal := applySections_normalizes recordSections_nodup recordSections_normalizes hfirst
  exact accepted_iff.2 (applySections_of_normal hnormal hsecond).2

/-- What the overlay makes of a document. -/
def overlaidRecord (document : Object) : Object :=
  match ovlDatabaseRecord exampleEnvironment document with
  | .ok record => record
  | .error _ => []

end ArtdaqDatabase
