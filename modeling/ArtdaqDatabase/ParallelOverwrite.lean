import ArtdaqDatabase.CompositionOverwrite
import ArtdaqDatabase.MergedResults

/-!
# Compositions stored by several threads

`storeGlobalConfiguration_mt` gives each removal and each assignment to a pool as a
task of its own.  All tasks run, in some order, and the call succeeds if all of the
assignments do; `storeGlobalConfiguration` keeps the order of the list and stops at
the first failure.
-/

namespace ArtdaqDatabase

open OrderedTable InPlaceUpdate BatchUpdate

/-- The order in which the workers run the tasks of the members, each with its time. -/
abbrev TaskOrder := List VersionInfo → List (Clock × VersionInfo)

/-- Each member has one task. -/
def IsTaskOrder (order : TaskOrder) : Prop :=
  ∀ members, ((order members).map Prod.snd).Perm members

/-- `json::assign_configuration` and `json::remove_configuration`, which answer with a
message and throw nothing. -/
def editTask (messageText : Except Failure (List Value) → String) (edit : ConfigurationEdit)
    (configuration : OptionText) (task : Clock × VersionInfo) : InPlace Failure Store TaskResult :=
  answered messageText (editConfiguration task.1 edit (memberOptions edit configuration task.2))

/-- The results of a pool, whose workers run one task after the other. -/
def runTasks (messageText : Except Failure (List Value) → String) (edit : ConfigurationEdit)
    (configuration : OptionText) (tasks : List (Clock × VersionInfo)) :
    InPlace Failure Store (List TaskResult) :=
  tasks.mapM (editTask messageText edit configuration)

/-- `composition_exists` and `old_members`, where an exception ends the search for both. -/
def existingComposition (toTimepoint : String → Except Failure ℤ) (configuration : OptionText)
    (store : Store) : Bool × List VersionInfo :=
  match ConfigurationInterface.findGlobalConfigurations toTimepoint configuration store with
  | .error _ => (false, [])
  | .ok existingConfigs =>
      if configuration.text ∈ existingConfigs then
        (true, (ConfigurationInterface.loadGlobalConfiguration configuration store).toOption.getD [])
      else (false, [])

/-- The assignments of `storeGlobalConfiguration_mt`.  A member that does not validate
throws, and the pool runs the tasks that it has before it is destroyed. -/
def assignInParallel (messageText : Except Failure (List Value) → String) (assignOrder : TaskOrder)
    (configuration : OptionText) (membersToAssign : List VersionInfo) :
    InPlace Failure Store Unit := do
  if membersToAssign = [] then pure ()
  else do
    let added := membersToAssign.takeWhile fun member => member.validate.isOk
    let results ← runTasks messageText .assign configuration (assignOrder added)
    lift (membersToAssign.forM VersionInfo.validate)
    let apiCallResult := mergeResults results
    if apiCallResult.1 then pure () else throw (.runtimeError apiCallResult.2)

/-- The removals of `storeGlobalConfiguration_mt`, whose results are only logged. -/
def unassignInParallel (messageText : Except Failure (List Value) → String)
    (unassignOrder : TaskOrder) (configuration : OptionText) (toUnassign : List VersionInfo) :
    InPlace Failure Store Unit := do
  if toUnassign = [] then pure ()
  else do
    let _ ← runTasks messageText .remove configuration (unassignOrder toUnassign)

def ConfigurationInterface.storeGlobalConfiguration_mt (toTimepoint : String → Except Failure ℤ)
    (messageText : Except Failure (List Value) → String) (unassignOrder assignOrder : TaskOrder)
    (versionInfoList : List VersionInfo) (configuration : String) (overwrite : Bool) :
    InPlace Failure Store Unit := do
  if versionInfoList = [] then
    throw (.invalidArgument "Version info list is empty. Compositions must have at least one member.")
  if hconfiguration : configuration = "" then
    throw (.invalidArgument "Global configuration name is empty")
  else
    let name : OptionText := ⟨configuration, hconfiguration⟩
    let existing ← fetch fun store => .ok (existingComposition toTimepoint name store)
    if existing.1 && !overwrite then throw (alreadyExists configuration)
    if existing.1 && overwrite then do
      let diff := computeCompositionDiff existing.2 versionInfoList
      unassignInParallel messageText unassignOrder name diff.toUnassign
      assignInParallel messageText assignOrder name diff.toAssign
    else assignInParallel messageText assignOrder name versionInfoList

/-! ## What both calls change -/

/-- What a call of `storeGlobalConfiguration_mt` unassigns and assigns: a search that
fails counts as one that finds nothing. -/
def parallelChange (toTimepoint : String → Except Failure ℤ) (configuration : OptionText)
    (newMembers : List VersionInfo) (overwrite : Bool) (store : Store) :
    Except Failure (List VersionInfo × List VersionInfo) :=
  match ConfigurationInterface.findGlobalConfigurations toTimepoint configuration store with
  | .error _ => .ok ([], newMembers)
  | .ok _ => storeChange toTimepoint configuration newMembers overwrite store

section Calls

variable {toTimepoint : String → Except Failure ℤ}
  {messageText : Except Failure (List Value) → String} {unassignOrder assignOrder : TaskOrder}
  {configuration : OptionText} {newMembers : List VersionInfo} {overwrite : Bool} {store : Store}

theorem unassignInParallel_nil (store : Store) :
    unassignInParallel messageText unassignOrder configuration [] store = .ok () store := rfl

theorem storeGlobalConfiguration_mt_eq (hmembers : newMembers ≠ []) :
    ConfigurationInterface.storeGlobalConfiguration_mt toTimepoint messageText unassignOrder
        assignOrder newMembers configuration.text overwrite store =
      (fetch (parallelChange toTimepoint configuration newMembers overwrite) >>= fun change => do
        unassignInParallel messageText unassignOrder configuration change.1
        assignInParallel messageText assignOrder configuration change.2) store := by
  unfold ConfigurationInterface.storeGlobalConfiguration_mt
  rw [if_neg hmembers, dif_neg configuration.text_ne]
  have hread : (fetch (fun store => .ok (existingComposition toTimepoint configuration store)) :
      InPlace Failure Store (Bool × List VersionInfo)) store =
        .ok (existingComposition toTimepoint configuration store) store := rfl
  refine (bind_run hread).trans ?_
  cases hfound : ConfigurationInterface.findGlobalConfigurations toTimepoint configuration store with
  | error e =>
      have hexisting : existingComposition toTimepoint configuration store = (false, []) := by
        rw [existingComposition, hfound]
      have hchange : parallelChange toTimepoint configuration newMembers overwrite store =
          .ok ([], newMembers) := by
        rw [parallelChange, hfound]
      rw [bind_run (fetch_ok hchange), hexisting]
      rfl
  | ok existingConfigs =>
      have hparallel : parallelChange toTimepoint configuration newMembers overwrite store =
          storeChange toTimepoint configuration newMembers overwrite store := by
        rw [parallelChange, hfound]
      by_cases hexists : configuration.text ∈ existingConfigs
      · have hexisting : existingComposition toTimepoint configuration store = (true,
            (ConfigurationInterface.loadGlobalConfiguration configuration store).toOption.getD []) := by
          rw [existingComposition, hfound]
          simp only [hexists, if_true]
        cases overwrite with
        | false =>
            have hchange : storeChange toTimepoint configuration newMembers false store =
                .error (alreadyExists configuration.text) := by
              rw [storeChange, hfound]
              simp [bind, Except.bind, hexists]
            rw [bind_error (fetch_error (hparallel.trans hchange)), hexisting]
            rfl
        | true =>
            have hchange : storeChange toTimepoint configuration newMembers true store =
                .ok (compositionChange configuration newMembers true true store) := by
              rw [storeChange, hfound]
              simp [bind, Except.bind, hexists]
            rw [bind_run (fetch_ok (hparallel.trans hchange)), hexisting]
            rfl
      · have hexisting : existingComposition toTimepoint configuration store = (false, []) := by
          rw [existingComposition, hfound]
          simp only [hexists, if_false]
        have hchange : storeChange toTimepoint configuration newMembers overwrite store =
            .ok ([], newMembers) := by
          rw [storeChange, hfound]
          simp only [bind, Except.bind, hexists, decide_false, Bool.false_and, Bool.false_eq_true,
            if_false]
          rfl
        rw [bind_run (fetch_ok (hparallel.trans hchange)), hexisting]
        rfl

end Calls

/-! ## What both calls leave -/

section Run

variable {removeTimes assignTimes : ℕ → Clock}
  {messageText : Except Failure (List Value) → String} {unassignOrder assignOrder : TaskOrder}
  {configuration : OptionText} {store store' : Store} {D : Set Place}

/-- The members validate, and get through in the order of the tasks. -/
def Succeeds (configuration : String) (store : Store)
    (change : List VersionInfo × List VersionInfo) (tasks : List VersionInfo) : Prop :=
  (∀ member ∈ change.2, member.validate = .ok ()) ∧
    (assignments configuration store).PassesAll
      (unassignedPlaces configuration store change.1) tasks

/-- The places that carry the configuration after a call that succeeds. -/
def storedPlaces (configuration : String) (store : Store)
    (change : List VersionInfo × List VersionInfo) : Set Place :=
  unassignedPlaces configuration store change.1 ∪
    (assignments configuration store).changes change.2

/-- What a call does for a change: it succeeds exactly under the condition, and then
leaves the stored places. -/
structure PerformsChange (configuration : String) (store : Store)
    (change : List VersionInfo × List VersionInfo) (tasks : List VersionInfo)
    (x : InPlace Failure Store Unit) : Prop where
  succeeds : Succeeds configuration store change tasks → ∃ store', x store = .ok () store' ∧
    Reassigning configuration store store' (storedPlaces configuration store change)
  fails : ¬ Succeeds configuration store change tasks → ∃ e store', x store = .error e store'

theorem PerformsChange.succeeds_iff
    {configuration : String} {change : List VersionInfo × List VersionInfo}
    {tasks : List VersionInfo} {x : InPlace Failure Store Unit}
    (hx : PerformsChange configuration store change tasks x) :
    (∃ store', x store = .ok () store') ↔ Succeeds configuration store change tasks := by
  constructor
  · rintro ⟨store', hrun⟩
    by_contra hnot
    obtain ⟨e, store'', hfail⟩ := hx.fails hnot
    rw [hrun] at hfail
    cases hfail
  · intro hsucceeds
    obtain ⟨store', hrun, -⟩ := hx.succeeds hsucceeds
    exact ⟨store', hrun⟩

/-- The serial call takes the members in their order. -/
theorem storeWith_performs
    (hstore : TidyStore store) (change : List VersionInfo × List VersionInfo) :
    PerformsChange configuration.text store change change.2
      (storeWith removeTimes assignTimes configuration change) := by
  obtain ⟨store₁, hunassign, hsim⟩ := unassignMembers_run hstore
    (reassigning_refl hstore configuration.text) (atTimes removeTimes change.1)
  rw [map_snd_atTimes] at hsim
  change Reassigning _ _ _ (unassignedPlaces configuration.text store change.1) at hsim
  have hstart : storeWith removeTimes assignTimes configuration change store = _ :=
    bind_run hunassign
  have hassign := run_forM
    (fun member (_ : member ∈ atTimes assignTimes change.2) =>
      assignMember_implements hstore member) hsim
  rw [map_snd_atTimes] at hassign
  change (∃ store' D', createConfiguration configuration (atTimes assignTimes change.2) store₁ = _ ∧
    _) ∨ ∃ e store' D', createConfiguration configuration (atTimes assignTimes change.2) store₁ = _ ∧
      _ at hassign
  by_cases hnone : change.2 = []
  · have hplaces : storedPlaces configuration.text store change =
        unassignedPlaces configuration.text store change.1 := by
      simp [storedPlaces, hnone]
    rw [if_pos hnone] at hstart
    constructor
    · intro _
      rw [hplaces]
      exact ⟨store₁, hstart, hsim⟩
    · intro hnot
      refine absurd ⟨?_, ?_⟩ hnot
      · simp [hnone]
      · rw [hnone]
        trivial
  rw [if_neg hnone] at hstart
  cases hvalid : change.2.forM VersionInfo.validate with
  | error e =>
      rw [bind_error (lift_run_error hvalid store₁)] at hstart
      constructor
      · rintro ⟨hall, -⟩
        rw [forM_validate_eq_ok_iff.2 hall] at hvalid
        cases hvalid
      · exact fun _ => ⟨e, store₁, hstart⟩
  | ok u =>
      rw [bind_run (lift_run hvalid store₁)] at hstart
      rcases hassign with ⟨store', D, hrun, hsim', hbatch⟩ | ⟨e, store', D, hrun, -, hbatch⟩
      · obtain ⟨hpasses, rfl⟩ := (Batch.run_through_iff _).1 hbatch
        constructor
        · exact fun _ => ⟨store', hstart.trans hrun, hsim'⟩
        · exact fun hnot => absurd ⟨forM_validate_eq_ok_iff.1 hvalid, hpasses⟩ hnot
      · constructor
        · rintro ⟨-, hpasses⟩
          exact absurd hpasses (Batch.not_passesAll_of_run _ hbatch)
        · exact fun _ => ⟨e, store', hstart.trans hrun⟩

/-! ### The tasks -/

/-- The removals of a pool. -/
theorem runTasks_remove
    (hstore : TidyStore store) (hsim : Reassigning configuration.text store store' D)
    (tasks : List (Clock × VersionInfo)) :
    ∃ results store'', runTasks messageText .remove configuration tasks store' =
        .ok results store'' ∧
      Reassigning configuration.text store store''
        (D \ (assignments configuration.text store).changes (tasks.map Prod.snd)) := by
  induction tasks generalizing store' D with
  | nil =>
      refine ⟨[], store', rfl, ?_⟩
      simpa using hsim
  | cons task tasks ih =>
      have hfirst := hsim.unassign hstore task
      obtain ⟨result, hresult⟩ := answered_run messageText
        (editConfiguration task.1 .remove (memberOptions .remove configuration task.2)) store'
      obtain ⟨results, store'', hrest, hsim'⟩ := ih hfirst
      refine ⟨result :: results, store'', ?_, ?_⟩
      · have hcons : runTasks messageText .remove configuration (task :: tasks) =
            (editTask messageText .remove configuration task >>= fun result =>
              runTasks messageText .remove configuration tasks >>= fun results =>
                pure (result :: results)) := by
          rw [runTasks, List.mapM_cons]
          rfl
        rw [hcons, bind_run (show editTask messageText .remove configuration task store' = _ from
          hresult), bind_run hrest]
        rfl
      · rw [List.map_cons, Batch.changes_cons, ← Set.sdiff_sdiff]
        exact hsim'

theorem unassignInParallel_run
    (hstore : TidyStore store) (horder : IsTaskOrder unassignOrder)
    (toUnassign : List VersionInfo) :
    ∃ store', unassignInParallel messageText unassignOrder configuration toUnassign store =
        .ok () store' ∧
      Reassigning configuration.text store store'
        (unassignedPlaces configuration.text store toUnassign) := by
  have hsim := reassigning_refl hstore configuration.text
  by_cases hnone : toUnassign = []
  · refine ⟨store, ?_, ?_⟩
    · rw [unassignInParallel, if_pos hnone]
      rfl
    · simpa [unassignedPlaces, hnone] using hsim
  · obtain ⟨results, store', hrun, hsim'⟩ := @runTasks_remove messageText _ _ _ _ hstore hsim
      (unassignOrder toUnassign)
    rw [Batch.changes_perm _ (horder toUnassign)] at hsim'
    refine ⟨store', ?_, hsim'⟩
    rw [unassignInParallel, if_neg hnone, bind_run hrun]
    rfl

/-- The count of the failures does not wrap around while there are few results. -/
theorem mergeResults_success_iff {results : List TaskResult} (hresults : results.length < 2 ^ 32) :
    (mergeResults results).1 = true ↔ ∀ result ∈ results, result.1 = true := by
  have hcount : errorCount results = Int.bmod (failureCount results) (2 ^ 32) := rfl
  have hle : failureCount results ≤ results.length := List.countP_le_length
  rw [← failureCount_eq_zero]
  unfold mergeResults
  simp only [decide_eq_true_eq]
  rw [hcount, Int.bmod_def]
  split <;> omega

theorem takeWhile_validate
    {members : List VersionInfo} (hvalid : ∀ member ∈ members, member.validate = .ok ()) :
    (members.takeWhile fun member => member.validate.isOk) = members := by
  rw [List.takeWhile_eq_self_iff]
  intro member hmember
  rw [hvalid member hmember]
  rfl

/-- The parallel call takes the members in the order of its tasks. -/
theorem parallel_performs
    (hstore : TidyStore store) (hunassign : IsTaskOrder unassignOrder)
    (hassign : IsTaskOrder assignOrder) (change : List VersionInfo × List VersionInfo)
    (hlength : change.2.length < 2 ^ 32) :
    PerformsChange configuration.text store change ((assignOrder change.2).map Prod.snd) (do
      unassignInParallel messageText unassignOrder configuration change.1
      assignInParallel messageText assignOrder configuration change.2) := by
  obtain ⟨store₁, hremoved, hsim⟩ := @unassignInParallel_run messageText _ configuration _
    hstore hunassign change.1
  have hstart : (do
      unassignInParallel messageText unassignOrder configuration change.1
      assignInParallel messageText assignOrder configuration change.2) store =
        assignInParallel messageText assignOrder configuration change.2 store₁ :=
    bind_run hremoved
  by_cases hnone : change.2 = []
  · have hplaces : storedPlaces configuration.text store change =
        unassignedPlaces configuration.text store change.1 := by
      simp [storedPlaces, hnone]
    have htasks : (assignOrder change.2).map Prod.snd = [] := by
      rw [hnone]
      exact (hassign []).eq_nil
    conv_rhs at hstart => rw [assignInParallel, if_pos hnone]
    constructor
    · intro _
      rw [hplaces]
      exact ⟨store₁, hstart, hsim⟩
    · intro hnot
      refine absurd ⟨?_, ?_⟩ hnot
      · simp [hnone]
      · rw [htasks]
        trivial
  conv_rhs at hstart => rw [assignInParallel, if_neg hnone]
  obtain ⟨results, store₂, D, hrun, hsim', hbatch⟩ := 
    @run_mapM_answered _ _ _ _ _ _ _ _ _ messageText _ _
      (assignOrder (change.2.takeWhile fun member => member.validate.isOk))
      (fun task _ => @editConfiguration_implements configuration _ hstore task) _ _ hsim
  change runTasks messageText .assign configuration _ store₁ = _ at hrun
  have hrest := hstart.trans (bind_run hrun)
  cases hvalid : change.2.forM VersionInfo.validate with
  | error e =>
      rw [bind_error (lift_run_error hvalid store₂)] at hrest
      constructor
      · rintro ⟨hall, -⟩
        rw [forM_validate_eq_ok_iff.2 hall] at hvalid
        cases hvalid
      · exact fun _ => ⟨e, store₂, hrest⟩
  | ok u =>
      have hall := forM_validate_eq_ok_iff.1 hvalid
      rw [bind_run (lift_run hvalid store₂)] at hrest
      rw [takeWhile_validate hall] at hbatch
      have hcount : results.length < 2 ^ 32 := by
        have hlengths := hbatch.length_eq
        have hperm := (hassign change.2).length_eq
        rw [List.length_map] at hlengths
        omega
      have hthrough : (mergeResults results).1 = true ↔
          (assignments configuration.text store).PassesAll
            (unassignedPlaces configuration.text store change.1)
            ((assignOrder change.2).map Prod.snd) := by
        rw [mergeResults_success_iff hcount, ← hbatch.through_iff, List.forall_mem_map]
      constructor
      · rintro ⟨-, hpasses⟩
        rw [if_pos (hthrough.2 hpasses)] at hrest
        refine ⟨store₂, hrest, ?_⟩
        rw [hbatch.end_eq hpasses, Batch.changes_perm _ (hassign change.2)] at hsim'
        exact hsim'
      · intro hnot
        have hfailed : ¬ (mergeResults results).1 = true :=
          fun hmerged => hnot ⟨hall, hthrough.1 hmerged⟩
        rw [if_neg hfailed] at hrest
        exact ⟨_, store₂, hrest⟩

end Run

/-! ## Agreement -/

/-- Some document carries an accepted configuration when the places carry the given one. -/
def CarriedAt (configuration : String) (store : Store) (D : Set Place) : Prop :=
  ∃ (p : Place) (document : Object), documentAt store p.1 p.2 = some document ∧
    AcceptedAt configuration D p document

/-- Each document with an accepted configuration has an entity. -/
def EntitiesAt (configuration : String) (store : Store) (D : Set Place) : Prop :=
  ∀ (p : Place) document, documentAt store p.1 p.2 = some document →
    AcceptedAt configuration D p document → documentEntities document ≠ []

theorem answerableAt_iff (configuration : String) (store : Store) (D : Set Place) :
    AnswerableAt configuration store D ↔
      CarriedAt configuration store D ∧ EntitiesAt configuration store D :=
  ⟨fun h => ⟨h.carried, h.entities⟩, fun h => ⟨h.1, h.2⟩⟩

theorem carriedAt_mono (configuration : String) (store : Store) (D D' : Set Place)
    (hsub : D ⊆ D') (hcarried : CarriedAt configuration store D) :
    CarriedAt configuration store D' := by
  obtain ⟨p, document, hdocument, haccepted⟩ := hcarried
  exact ⟨p, document, hdocument, haccepted.imp_left fun hp => hsub hp⟩

theorem entitiesAt_anti (configuration : String) (store : Store) (D D' : Set Place)
    (hsub : D ⊆ D') (hentities : EntitiesAt configuration store D') :
    EntitiesAt configuration store D := by
  intro p document hdocument haccepted
  exact hentities p document hdocument (haccepted.imp_left fun hp => hsub hp)

/-- Nothing but the first assignment can go wrong: the members validate, each selects a
document, and the documents that carry the configuration in the end have entities. -/
structure Assignable (configuration : String) (store : Store) (D : Set Place)
    (members : List VersionInfo) : Prop where
  valid : ∀ member ∈ members, member.validate = .ok ()
  selects : ∀ member ∈ members, ∃ document, readDocument (memberSearch member) store = .ok document
  entities : EntitiesAt configuration store (D ∪ (assignments configuration store).changes members)

/-- The composition can be listed after an assignment of the member alone. -/
def CanBeFirst (configuration : String) (store : Store) (D : Set Place) (member : VersionInfo) :
    Prop :=
  CarriedAt configuration store (D ∪ writablePlaces store member)

/-- When the calls agree.  If the search for the composition fails, the serial call fails,
and no order of the tasks may succeed.  Otherwise the members can be the first to be
assigned all alike. -/
def AgreeOn (toTimepoint : String → Except Failure ℤ) (configuration : OptionText)
    (newMembers : List VersionInfo) (overwrite : Bool) (store : Store) : Prop :=
  match ConfigurationInterface.findGlobalConfigurations toTimepoint configuration store with
  | .error _ =>
      Assignable configuration.text store (carrying configuration.text store) newMembers →
        ∀ member ∈ newMembers,
          ¬ CanBeFirst configuration.text store (carrying configuration.text store) member
  | .ok _ =>
      ∀ change, storeChange toTimepoint configuration newMembers overwrite store = .ok change →
        Assignable configuration.text store
          (unassignedPlaces configuration.text store change.1) change.2 →
        ∀ first ∈ change.2, ∀ member ∈ change.2,
          CanBeFirst configuration.text store
            (unassignedPlaces configuration.text store change.1) first →
          CanBeFirst configuration.text store
            (unassignedPlaces configuration.text store change.1) member

/-- The calls succeed together, and then leave the same configurations. -/
structure Agree (serial parallel : InPlace Failure Store Unit) (store : Store) : Prop where
  succeeds_iff : (∃ store', serial store = .ok () store') ↔ ∃ store', parallel store = .ok () store'
  configurations : ∀ store' store'', serial store = .ok () store' →
    parallel store = .ok () store'' → KeepsConfigurations store' store''

/-- `storeGlobalConfiguration_mt` agrees with `storeGlobalConfiguration` for all orders of
its tasks. -/
def ParallelAgrees (toTimepoint : String → Except Failure ℤ) (configuration : String)
    (newMembers : List VersionInfo) (overwrite : Bool) (store : Store) : Prop :=
  ∀ (removeTimes assignTimes : ℕ → Clock) (messageText : Except Failure (List Value) → String)
    (unassignOrder assignOrder : TaskOrder),
    IsTaskOrder unassignOrder → IsTaskOrder assignOrder →
      Agree
        (ConfigurationInterface.storeGlobalConfiguration toTimepoint removeTimes assignTimes
          newMembers configuration overwrite)
        (ConfigurationInterface.storeGlobalConfiguration_mt toTimepoint messageText unassignOrder
          assignOrder newMembers configuration overwrite) store

section Agreement

variable {toTimepoint : String → Except Failure ℤ} {configuration : OptionText}
  {newMembers : List VersionInfo} {overwrite : Bool} {store : Store}

theorem Reassigning.keeps_same
    {configuration : String} {store' store'' : Store} {D : Set Place}
    (hsim : Reassigning configuration store store' D)
    (hsim' : Reassigning configuration store store'' D) : KeepsConfigurations store' store'' := by
  intro p
  have hplace := hsim.alike p.1 p.2
  have hplace' := hsim'.alike p.1 p.2
  have hothers := hsim.others p
  have hothers' := hsim'.others p
  have hcarried := hsim.carried p
  have hcarried' := hsim'.carried p
  generalize documentAt store p.1 p.2 = first at hplace hplace' hothers hothers'
  generalize documentAt store' p.1 p.2 = second at hplace hothers hcarried ⊢
  generalize documentAt store'' p.1 p.2 = third at hplace' hothers' hcarried' ⊢
  cases hplace with
  | none =>
      cases hplace'
      exact Option.Rel.none
  | some halike =>
      cases hplace' with
      | some halike' =>
          refine Option.Rel.some fun x => ?_
          by_cases hx : x = configuration
          · rw [hx, hcarried _ rfl, hcarried' _ rfl]
          · rw [hothers _ _ rfl rfl x hx, hothers' _ _ rfl rfl x hx]

/-- An order that puts the tasks of one list as given. -/
def orderTo (members tasks : List VersionInfo) : TaskOrder := fun list =>
  if list = members then tasks.map fun member => (exampleClock, member)
  else list.map fun member => (exampleClock, member)

theorem map_snd_orderTo (members tasks : List VersionInfo) :
    (orderTo members tasks members).map Prod.snd = tasks := by
  simp [orderTo, Function.comp_def]

theorem isTaskOrder_orderTo
    {members tasks : List VersionInfo} (hperm : tasks.Perm members) :
    IsTaskOrder (orderTo members tasks) := by
  intro list
  rw [orderTo]
  split
  · rename_i hlist
    rw [hlist]
    simpa [Function.comp_def] using hperm
  · simp [Function.comp_def]

theorem length_toAssign_le (oldMembers newMembers : List VersionInfo) :
    (computeCompositionDiff oldMembers newMembers).toAssign.length ≤ newMembers.length :=
  List.length_filter_le _ _

theorem length_storeChange_le
    {change : List VersionInfo × List VersionInfo}
    (hchange : storeChange toTimepoint configuration newMembers overwrite store = .ok change) :
    change.2.length ≤ newMembers.length := by
  simp only [storeChange, bind_eq_ok] at hchange
  obtain ⟨existingConfigs, -, hchange⟩ := hchange
  split at hchange
  · cases hchange
  · cases hchange
    unfold compositionChange
    dsimp only
    split
    · exact length_toAssign_le _ _
    · exact le_rfl

/-- Both calls on a change agree for all orders exactly if every order of the tasks
succeeds as the list does. -/
theorem agree_iff
    {change : List VersionInfo × List VersionInfo} {tasks : List VersionInfo}
    {serial parallel : InPlace Failure Store Unit}
    (hserial : PerformsChange configuration.text store change change.2 serial)
    (hparallel : PerformsChange configuration.text store change tasks parallel) :
    Agree serial parallel store ↔
      (Succeeds configuration.text store change change.2 ↔
        Succeeds configuration.text store change tasks) := by
  constructor
  · intro hagree
    rw [← hserial.succeeds_iff, ← hparallel.succeeds_iff]
    exact hagree.succeeds_iff
  · intro hsame
    refine ⟨by rw [hserial.succeeds_iff, hparallel.succeeds_iff, hsame], ?_⟩
    intro store' store'' hrun hrun'
    obtain ⟨first, hfirst, hsim⟩ := hserial.succeeds (hserial.succeeds_iff.1 ⟨store', hrun⟩)
    obtain ⟨second, hsecond, hsim'⟩ :=
      hparallel.succeeds (hparallel.succeeds_iff.1 ⟨store'', hrun'⟩)
    rw [hrun] at hfirst
    rw [hrun'] at hsecond
    cases hfirst
    cases hsecond
    exact hsim.keeps_same hsim'

theorem agree_congr
    {serial serial' parallel parallel' : InPlace Failure Store Unit}
    (hserial : serial store = serial' store) (hparallel : parallel store = parallel' store) :
    Agree serial parallel store ↔ Agree serial' parallel' store := by
  constructor
  · rintro ⟨hsucceeds, hconfigurations⟩
    rw [hserial, hparallel] at hsucceeds hconfigurations
    exact ⟨hsucceeds, hconfigurations⟩
  · rintro ⟨hsucceeds, hconfigurations⟩
    rw [← hserial, ← hparallel] at hsucceeds hconfigurations
    exact ⟨hsucceeds, hconfigurations⟩

theorem agree_of_fails
    {serial parallel : InPlace Failure Store Unit} {e : Failure} {store' : Store}
    (hserial : serial store = .error e store') :
    Agree serial parallel store ↔ ¬ ∃ store', parallel store = .ok () store' := by
  have hnever : ¬ ∃ store', serial store = .ok () store' := by
    rintro ⟨store'', hrun⟩
    rw [hserial] at hrun
    cases hrun
  constructor
  · exact fun hagree hsucceeds => hnever (hagree.succeeds_iff.2 hsucceeds)
  · intro hfails
    refine ⟨iff_of_false hnever hfails, fun first second hrun _ => ?_⟩
    exact absurd ⟨first, hrun⟩ hnever

/-- Some order of the tasks succeeds exactly if some member can be the first. -/
theorem exists_order_succeeds_iff
    {change : List VersionInfo × List VersionInfo} (hchange : change.2 ≠ []) :
    (∃ order, IsTaskOrder order ∧
        Succeeds configuration.text store change ((order change.2).map Prod.snd)) ↔
      Assignable configuration.text store
          (unassignedPlaces configuration.text store change.1) change.2 ∧
        ∃ member ∈ change.2, CanBeFirst configuration.text store
          (unassignedPlaces configuration.text store change.1) member := by
  have hperms := @Batch.exists_perm_passesAll_iff _ _ (assignments configuration.text store)
    (CarriedAt configuration.text store) (EntitiesAt configuration.text store)
    (answerableAt_iff configuration.text store) (carriedAt_mono configuration.text store)
    (entitiesAt_anti configuration.text store)
    (unassignedPlaces configuration.text store change.1) change.2 hchange
  constructor
  · rintro ⟨order, horder, hvalid, hpasses⟩
    obtain ⟨hready, hentities, hfirst⟩ := hperms.1 ⟨_, horder change.2, hpasses⟩
    exact ⟨⟨hvalid, hready, hentities⟩, hfirst⟩
  · rintro ⟨⟨hvalid, hready, hentities⟩, hfirst⟩
    obtain ⟨tasks, hperm, hpasses⟩ := hperms.2 ⟨hready, hentities, hfirst⟩
    refine ⟨orderTo change.2 tasks, isTaskOrder_orderTo hperm, hvalid, ?_⟩
    rw [map_snd_orderTo]
    exact hpasses

/-- All orders of the tasks succeed as the list does exactly if the members can be the
first all alike. -/
theorem forall_order_succeeds_iff (change : List VersionInfo × List VersionInfo) :
    (∀ order, IsTaskOrder order →
        (Succeeds configuration.text store change change.2 ↔
          Succeeds configuration.text store change ((order change.2).map Prod.snd))) ↔
      (Assignable configuration.text store
          (unassignedPlaces configuration.text store change.1) change.2 →
        ∀ first ∈ change.2, ∀ member ∈ change.2,
          CanBeFirst configuration.text store
            (unassignedPlaces configuration.text store change.1) first →
          CanBeFirst configuration.text store
            (unassignedPlaces configuration.text store change.1) member) := by
  have hperms := @Batch.passesAll_perm_iff _ _ (assignments configuration.text store)
    (CarriedAt configuration.text store) (EntitiesAt configuration.text store)
    (answerableAt_iff configuration.text store) (carriedAt_mono configuration.text store)
    (entitiesAt_anti configuration.text store)
    (unassignedPlaces configuration.text store change.1) change.2
  constructor
  · rintro hsame ⟨hvalid, hready, hentities⟩
    refine hperms.1 ?_ hready hentities
    intro tasks hperm
    have hiff := hsame _ (isTaskOrder_orderTo hperm)
    rw [map_snd_orderTo] at hiff
    constructor
    · exact fun hpasses => (hiff.2 ⟨hvalid, hpasses⟩).2
    · exact fun hpasses => (hiff.1 ⟨hvalid, hpasses⟩).2
  · intro halike order horder
    refine and_congr_right fun hvalid => ?_
    exact (hperms.2 (fun hready hentities => halike ⟨hvalid, hready, hentities⟩) _
      (horder change.2)).symm

theorem unassignedPlaces_nil (configuration : String) (store : Store) :
    unassignedPlaces configuration store [] = carrying configuration store := by
  simp [unassignedPlaces]

/-- The calls agree on a list with members. -/
theorem parallelAgrees_iff_of_members
    (hstore : TidyStore store) (hlength : newMembers.length < 2 ^ 32) (hmembers : newMembers ≠ []) :
    ParallelAgrees toTimepoint configuration.text newMembers overwrite store ↔
      AgreeOn toTimepoint configuration newMembers overwrite store := by
  have hcalls : ParallelAgrees toTimepoint configuration.text newMembers overwrite store ↔
      ∀ (removeTimes assignTimes : ℕ → Clock) (messageText : Except Failure (List Value) → String)
        (unassignOrder assignOrder : TaskOrder),
        IsTaskOrder unassignOrder → IsTaskOrder assignOrder → Agree
          (fetch (storeChange toTimepoint configuration newMembers overwrite) >>=
            storeWith removeTimes assignTimes configuration)
          (fetch (parallelChange toTimepoint configuration newMembers overwrite) >>= fun change => do
            unassignInParallel messageText unassignOrder configuration change.1
            assignInParallel messageText assignOrder configuration change.2) store := by
    unfold ParallelAgrees
    simp only [agree_congr (storeGlobalConfiguration_eq hmembers)
      (storeGlobalConfiguration_mt_eq hmembers)]
  rw [hcalls, AgreeOn]
  cases hfound : ConfigurationInterface.findGlobalConfigurations toTimepoint configuration store with
  | error e =>
      have hchange : storeChange toTimepoint configuration newMembers overwrite store =
          .error e := by
        rw [storeChange, hfound]
        rfl
      have hparallel : parallelChange toTimepoint configuration newMembers overwrite store =
          .ok ([], newMembers) := by
        rw [parallelChange, hfound]
      have horders := @exists_order_succeeds_iff configuration store ([], newMembers) hmembers
      rw [unassignedPlaces_nil] at horders
      simp only [agree_of_fails (bind_error (fetch_error hchange)), bind_run (fetch_ok hparallel)]
      constructor
      · intro hfails hassignable member hmember hfirst
        obtain ⟨order, horder, hsucceeds⟩ := horders.2 ⟨hassignable, member, hmember, hfirst⟩
        exact hfails (fun _ => exampleClock) (fun _ => exampleClock) (fun _ => "") order order horder
          horder ((parallel_performs hstore horder horder ([], newMembers)
            hlength).succeeds_iff.2 hsucceeds)
      · intro hnever _ _ messageText unassignOrder assignOrder hunassign hassign hsucceeds
        rw [(parallel_performs hstore hunassign hassign ([], newMembers) hlength).succeeds_iff]
          at hsucceeds
        obtain ⟨hassignable, member, hmember, hfirst⟩ := horders.1 ⟨assignOrder, hassign, hsucceeds⟩
        exact hnever hassignable member hmember hfirst
  | ok existingConfigs =>
      have hparallel : parallelChange toTimepoint configuration newMembers overwrite store =
          storeChange toTimepoint configuration newMembers overwrite store := by
        rw [parallelChange, hfound]
      cases hchange : storeChange toTimepoint configuration newMembers overwrite store with
      | error e =>
          rw [hchange] at hparallel
          constructor
          · intro _ change hok
            cases hok
          · intro _ _ _ _ _ _ _ _
            rw [agree_of_fails (bind_error (fetch_error hchange)),
              bind_error (fetch_error hparallel)]
            rintro ⟨store', hrun⟩
            cases hrun
      | ok change =>
          rw [hchange] at hparallel
          have hcount : change.2.length < 2 ^ 32 :=
            (length_storeChange_le hchange).trans_lt hlength
          have hagree : ∀ {removeTimes assignTimes : ℕ → Clock}
              {messageText : Except Failure (List Value) → String}
              {unassignOrder assignOrder : TaskOrder}, IsTaskOrder unassignOrder →
              IsTaskOrder assignOrder → (Agree
                (fetch (storeChange toTimepoint configuration newMembers overwrite) >>=
                  storeWith removeTimes assignTimes configuration)
                (fetch (parallelChange toTimepoint configuration newMembers overwrite) >>=
                  fun change => do
                    unassignInParallel messageText unassignOrder configuration change.1
                    assignInParallel messageText assignOrder configuration change.2) store ↔
                (Succeeds configuration.text store change change.2 ↔
                  Succeeds configuration.text store change
                    ((assignOrder change.2).map Prod.snd))) := by
            intro removeTimes assignTimes messageText unassignOrder assignOrder hunassign hassign
            rw [agree_congr (bind_run (fetch_ok hchange)) (bind_run (fetch_ok hparallel))]
            exact agree_iff (storeWith_performs hstore change)
              (parallel_performs hstore hunassign hassign change hcount)
          simp only [Except.ok.injEq, forall_eq']
          rw [← forall_order_succeeds_iff change]
          constructor
          · intro hall order horder
            exact (hagree horder horder).1 (hall (fun _ => exampleClock) (fun _ => exampleClock)
              (fun _ => "") order order horder horder)
          · intro hall _ _ _ _ assignOrder hunassign hassign
            exact (hagree hunassign hassign).2 (hall assignOrder hassign)

end Agreement

/-- A store with a document that can be written and one that is readonly. -/
def mixedStore : Store :=
  writes [] [(exampleEnvironment, examplePayload "v1" "e1" []),
    (exampleEnvironment, .object
      [("document", .object
          [("version", .string "v1"), ("collection", .string "timing"),
            ("entities", .array [.object [("name", .string "e1")]]),
            ("bookkeeping", .object [("isreadonly", .boolean true)])]),
        ("filter", .object [])])]

def mixedMembers : List VersionInfo :=
  [⟨"timing", "v1", "e1"⟩, ⟨"run", "v1", "e1"⟩]

/-- The tasks in the reversed order of the members. -/
def reversedOrder : TaskOrder := fun members =>
  members.reverse.map fun member => (exampleClock, member)

end ArtdaqDatabase
