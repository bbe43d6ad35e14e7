import ArtdaqDatabase.StoredConfigurations

/-!
# Compositions side by side

The calls that store a composition, and those that assign or remove one configuration,
change in each document the one configuration they name and nothing that tells its
members apart.  A composition that was stored once is therefore loaded as the same
members after any run of calls that name others, whether they fail or not.
-/

namespace ArtdaqDatabase

open InPlaceUpdate BatchUpdate

/-! ## What a call leaves alone -/

/-- The documents that carry the configuration are the same, and alike, in a tidy store. -/
def Unaffected (configuration : String) (store store' : Store) : Prop :=
  TidyStore store → TidyStore store' ∧ AlikeStores store store' ∧
    carrying configuration store' = carrying configuration store

theorem Unaffected.refl (configuration : String) (store : Store) :
    Unaffected configuration store store :=
  fun hstore => ⟨hstore, AlikeStores.refl store, rfl⟩

theorem Unaffected.trans {configuration : String} {store store' store'' : Store}
    (h : Unaffected configuration store store') (h' : Unaffected configuration store' store'') :
    Unaffected configuration store store'' := by
  intro hstore
  obtain ⟨htidy, halike, hcarrying⟩ := h hstore
  obtain ⟨htidy', halike', hcarrying'⟩ := h' htidy
  exact ⟨htidy', halike.trans halike', hcarrying'.trans hcarrying⟩

instance (configuration : String) : Std.Refl (Unaffected configuration) :=
  ⟨Unaffected.refl configuration⟩

instance (configuration : String) : IsTrans Store (Unaffected configuration) :=
  ⟨fun _ _ _ => Unaffected.trans⟩

section Edit

variable {configuration : String}

/-- A call that finds no document to edit throws and leaves the store. -/
theorem editConfiguration_unselected
    {clock : Clock} {edit : ConfigurationEdit} {options : ManageDocumentOperation} {store : Store}
    (hnone : options.operation ≠ edit.name ∨
      ∃ e, selectDocument options store = .error e) :
    ∃ e, editConfiguration clock edit options store = .error e store := by
  have hpayload : ∃ e, configurationPayload clock edit options store = .error e := by
    by_cases hoperation : options.operation = edit.name
    · obtain ⟨e, hselect⟩ := hnone.resolve_left (not_not.2 hoperation)
      refine ⟨e, ?_⟩
      simp [configurationPayload, confirm, hoperation, hselect, bind, Except.bind]
    · exact ⟨_, by simp [configurationPayload, confirm, hoperation, bind, Except.bind]; rfl⟩
  obtain ⟨e, hpayload⟩ := hpayload
  refine ⟨e, ?_⟩
  rw [editConfiguration, rewriteConfiguration]
  exact bind_error (bind_error (fetch_error hpayload))

/-- An edit of another configuration, which may fail or select anything. -/
theorem unaffected_editConfiguration
    (clock : Clock) (edit : ConfigurationEdit) {options : ManageDocumentOperation}
    (hother : options.configuration.text ≠ configuration) :
    Moves (Unaffected configuration) (editConfiguration clock edit options) := by
  intro store hstore
  by_cases hoperation : options.operation = edit.name
  · cases hselect : selectDocument options store with
    | error e =>
        obtain ⟨e', hrun⟩ := @editConfiguration_unselected clock edit options store
          (Or.inr ⟨e, hselect⟩)
        rw [after_of_error hrun]
        exact Unaffected.refl configuration store hstore
    | ok document =>
        obtain ⟨name, oid, -, hdocument⟩ := selectDocument_stored hselect
        have hplaced := hstore.placed name oid document hdocument
        have hindexable := hstore.indexable name oid document hdocument
        obtain ⟨hlisted, hdocuments, -⟩ := editConfiguration_spec hstore.toListedStore
          hdocument hplaced hindexable clock hselect hoperation
        have hspec : Reassigned edit options.configuration.text document
            (reassigned clock edit options document) := reassigned_spec hplaced hindexable clock
        have hown : Placed name oid (reassigned clock edit options document) :=
          placed_reassigned hplaced hindexable clock
        have hkept : Alike document (reassigned clock edit options document) :=
          ⟨hspec.lookup_eq "version" (by decide), hspec.lookup_eq "entities" (by decide),
            hspec.writable_iff⟩
        have hsame := hspec.others configuration hother.symm
        have hindexed := hspec.indexable
        generalize after (editConfiguration clock edit options) store = store' at hlisted hdocuments ⊢
        generalize reassigned clock edit options document = edited at *
        refine ⟨⟨hlisted, fun name' oid' found hfound => ?_, fun name' oid' found hfound => ?_⟩,
          fun name' oid' => ?_, ?_⟩
        · rw [hdocuments] at hfound
          split at hfound
          · rename_i hplace
            rw [hplace.1, hplace.2, ← Option.some.inj hfound]
            exact hown
          · exact hstore.placed name' oid' found hfound
        · rw [hdocuments] at hfound
          split at hfound
          · rw [← Option.some.inj hfound]
            exact hindexed
          · exact hstore.indexable name' oid' found hfound
        · rw [hdocuments]
          split
          · rename_i hplace
            rw [hplace.1, hplace.2, hdocument]
            exact Option.Rel.some hkept
          · exact AlikeStores.refl store name' oid'
        · ext p
          simp only [carrying, Set.mem_ofPred_eq, hdocuments]
          split
          · rename_i hplace
            simp [hplace.1, hplace.2, hdocument, hsame]
          · exact Iff.rfl
  · obtain ⟨e, hrun⟩ := @editConfiguration_unselected clock edit options store (Or.inl hoperation)
    rw [after_of_error hrun]
    exact Unaffected.refl configuration store hstore

theorem unaffected_answered
    {R : Type} (message : Except Failure (List Value) → R)
    (clock : Clock) (edit : ConfigurationEdit) {options : ManageDocumentOperation}
    (hother : options.configuration.text ≠ configuration) :
    Moves (Unaffected configuration)
      (answered message (editConfiguration clock edit options)) := by
  intro store
  obtain ⟨answer, hrun⟩ := answered_run message (editConfiguration clock edit options) store
  rw [after_of_ok hrun]
  exact unaffected_editConfiguration clock edit hother store

end Edit

/-! ## The calls -/

/-- A call that changes the documents of one configuration. -/
inductive CompositionCall where
  | store (toTimepoint : String → Except Failure ℤ) (removeTimes assignTimes : ℕ → Clock)
      (versionInfoList : List VersionInfo) (configuration : String) (allowOverwrite : Bool)
  | storeInParallel (toTimepoint : String → Except Failure ℤ)
      (messageText : Except Failure (List Value) → String) (unassignOrder assignOrder : TaskOrder)
      (versionInfoList : List VersionInfo) (configuration : String) (overwrite : Bool)
  | reassign (clock : Clock) (edit : ConfigurationEdit) (options : ManageDocumentOperation)

def CompositionCall.configuration : CompositionCall → String
  | .store _ _ _ _ configuration _ => configuration
  | .storeInParallel _ _ _ _ _ configuration _ => configuration
  | .reassign _ _ options => options.configuration.text

def CompositionCall.perform : CompositionCall → InPlace Failure Store Unit
  | .store toTimepoint removeTimes assignTimes versionInfoList configuration allowOverwrite =>
      ConfigurationInterface.storeGlobalConfiguration toTimepoint removeTimes assignTimes
        versionInfoList configuration allowOverwrite
  | .storeInParallel toTimepoint messageText unassignOrder assignOrder versionInfoList configuration
      overwrite =>
      ConfigurationInterface.storeGlobalConfiguration_mt toTimepoint messageText unassignOrder
        assignOrder versionInfoList configuration overwrite
  | .reassign clock edit options => do
      let _ ← editConfiguration clock edit options

/-- The store after the calls, whether they fail or not. -/
def compositionCalls (store : Store) (calls : List CompositionCall) : Store :=
  GuardedRun.run (fun store call => after call.perform store) store calls

section Calls

variable {configuration : String} {other : OptionText} (hother : other.text ≠ configuration)
include hother

theorem unaffected_assignInParallel
    (messageText : Except Failure (List Value) → String) (assignOrder : TaskOrder)
    (members : List VersionInfo) :
    Moves (Unaffected configuration) (assignInParallel messageText assignOrder other members) := by
  unfold assignInParallel
  split
  · exact Moves.pure _
  · refine Moves.bind (Moves.mapM fun task _ => ?_) fun results => Moves.bind (Moves.lift _) fun _ => ?_
    · exact unaffected_answered messageText task.1 .assign hother
    · exact Moves.ite (Moves.pure _) (Moves.throw _)

theorem unaffected_unassignInParallel
    (messageText : Except Failure (List Value) → String) (unassignOrder : TaskOrder)
    (members : List VersionInfo) :
    Moves (Unaffected configuration) (unassignInParallel messageText unassignOrder other members) := by
  unfold unassignInParallel
  split
  · exact Moves.pure _
  · refine Moves.bind (Moves.mapM fun task _ => ?_) fun _ => Moves.pure _
    exact unaffected_answered messageText task.1 .remove hother

theorem unaffected_unassignMembers (members : List (Clock × VersionInfo)) :
    Moves (Unaffected configuration) (unassignMembers other members) := by
  refine Moves.forM fun member _ => Moves.tryCatch ?_ fun e store => rfl
  exact Moves.bind (unaffected_editConfiguration member.1 .remove hother) fun _ => Moves.pure _

theorem unaffected_createConfiguration (members : List (Clock × VersionInfo)) :
    Moves (Unaffected configuration) (createConfiguration other members) := by
  refine Moves.forM fun member _ => ?_
  exact Moves.bind (unaffected_editConfiguration member.1 .assign hother) fun _ => Moves.pure _

theorem unaffected_storeWith
    (removeTimes assignTimes : ℕ → Clock) (change : List VersionInfo × List VersionInfo) :
    Moves (Unaffected configuration) (storeWith removeTimes assignTimes other change) := by
  unfold storeWith
  refine Moves.bind (unaffected_unassignMembers hother _) fun _ => ?_
  split
  · exact Moves.pure _
  · exact Moves.bind (Moves.lift _) fun _ => unaffected_createConfiguration hother _

end Calls

/-- A call that names another configuration. -/
theorem unaffected_perform
    {configuration : String} {call : CompositionCall}
    (hother : call.configuration ≠ configuration) :
    Moves (Unaffected configuration) call.perform := by
  cases call with
  | store toTimepoint removeTimes assignTimes versionInfoList other allowOverwrite =>
      change other ≠ configuration at hother
      rw [CompositionCall.perform, ConfigurationInterface.storeGlobalConfiguration]
      refine Moves.ite (Moves.throw _) ?_
      split
      · exact Moves.throw _
      · rename_i hname
        have hnamed : (⟨other, hname⟩ : OptionText).text ≠ configuration := hother
        refine Moves.bind (Moves.fetch _) fun existing => Moves.ite (Moves.throw _) ?_
        exact Moves.bind (Moves.fetch _) fun change =>
          unaffected_storeWith hnamed removeTimes assignTimes change
  | storeInParallel toTimepoint messageText unassignOrder assignOrder versionInfoList other
      overwrite =>
      change other ≠ configuration at hother
      rw [CompositionCall.perform, ConfigurationInterface.storeGlobalConfiguration_mt]
      refine Moves.ite (Moves.throw _) ?_
      split
      · exact Moves.throw _
      · rename_i hname
        have hnamed : (⟨other, hname⟩ : OptionText).text ≠ configuration := hother
        refine Moves.bind (Moves.fetch _) fun existing => Moves.ite (Moves.throw _) ?_
        refine Moves.ite (Moves.bind ?_ fun _ => ?_) ?_
        · exact unaffected_unassignInParallel hnamed messageText unassignOrder _
        · exact unaffected_assignInParallel hnamed messageText assignOrder _
        · exact unaffected_assignInParallel hnamed messageText assignOrder _
  | reassign clock edit options =>
      exact Moves.bind (unaffected_editConfiguration clock edit hother) fun _ => Moves.pure _

theorem unaffected_compositionCalls
    {configuration : String} {calls : List CompositionCall}
    (hothers : ∀ call ∈ calls, call.configuration ≠ configuration) (store : Store) :
    Unaffected configuration store (compositionCalls store calls) := by
  induction calls generalizing store with
  | nil => exact Unaffected.refl configuration store
  | cons call calls ih =>
      have hfirst := unaffected_perform (hothers call (by simp)) store
      exact hfirst.trans (ih (fun other hother => hothers other (List.mem_cons_of_mem _ hother)) _)

end ArtdaqDatabase
