import ArtdaqDatabase.TaskSteps

/-!
# Compositions stored by tasks that interleave

`storeGlobalConfiguration_mt` on a pool whose workers take the steps of the tasks in any
order.  The tasks write one configuration, so that what a task has read is out of date
only in what the others add or remove as well: every order ends with the composition.
-/

namespace ArtdaqDatabase

open OrderedTable InPlaceUpdate BatchUpdate InterleavedTasks

/-! ## Pools -/

section TaskPool

variable {ι : Type} {configuration : OptionText} {store start : Store} {D : Set Place}
  {edit : ConfigurationEdit} {task : ι → Clock × VersionInfo}

/-- The pool before its workers begin. -/
def waitingPool (start : Store) : TaskPool Store TaskPhase ι :=
  ⟨start, fun _ => .waiting⟩

theorem taskPlaces_empty : taskPlaces store task ∅ = ∅ := by
  simp [taskPlaces]

theorem rewritten_start
    (edit : ConfigurationEdit) (task : ι → Clock × VersionInfo)
    (hsim : Reassigning configuration.text store start D) :
    Rewritten edit configuration.text store D (start.map Prod.fst) task
      ((waitingPool start : TaskPool Store TaskPhase ι).through TaskPhase.acted) start := by
  have hnone : (waitingPool start : TaskPool Store TaskPhase ι).through TaskPhase.acted = ∅ := by
    simp [TaskPool.through, waitingPool, TaskPhase.acted]
  refine ⟨?_, rfl⟩
  have hplaces : edit.places D ∅ = D := by
    cases edit <;> simp [ConfigurationEdit.places]
  rw [hnone, taskPlaces_empty, hplaces]
  exact hsim

/-- Each step keeps what is known of the tasks and of the store. -/
theorem keeps_known (hstore : TidyStore store) (names : List String) :
    StepKeeps (fun i => taskStep edit configuration (task i))
      (Rewritten edit configuration.text store D names task)
      (fun i phase => phase.Known edit configuration.text store names (task i).2)
      TaskPhase.acted where
  known_next _ _ _ _ hrewritten hacted hknown := (hrewritten.step hstore hacted hknown).1
  acted_next _ _ _ _ hrewritten hacted hknown := (hrewritten.step hstore hacted hknown).2.1
  stands_next _ _ _ _ hrewritten hacted hknown := (hrewritten.step hstore hacted hknown).2.2

/-- Each step of an assignment also keeps that no task fails. -/
theorem keeps_answers
    (hstore : TidyStore store) (names : List String)
    (hentities : EntitiesAt configuration.text store (D ∪ taskPlaces store task Set.univ))
    (hplaces : ∀ i, ∃ p, Designates store (task i).2 p) :
    StepKeeps (fun i => taskStep .assign configuration (task i))
      (Rewritten .assign configuration.text store D names task)
      (fun i phase => phase.Known .assign configuration.text store names (task i).2 ∧
        phase.Answers (task i).2.configuration)
      TaskPhase.acted where
  known_next _ _ i _ hrewritten hacted hknown := by
    obtain ⟨p, hplace⟩ := hplaces i
    exact ⟨(hrewritten.step hstore hacted hknown.1).1,
      hrewritten.step_answers hentities hstore hplace hacted hknown.1 hknown.2⟩
  acted_next _ _ _ _ hrewritten hacted hknown := (hrewritten.step hstore hacted hknown.1).2.1
  stands_next _ _ _ _ hrewritten hacted hknown := (hrewritten.step hstore hacted hknown.1).2.2

theorem finished_of_left {phase : TaskPhase} {count : ℕ} (hleft : phase.left count = 0) :
    ∃ result, phase = .finished result := by
  cases phase with
  | finished result => exact ⟨result, rfl⟩
  | _ => simp [TaskPhase.left] at hleft

/-- Each step is one less to take. -/
theorem left_taskStep
    (hstore : TidyStore store) {names : List String} {through : Set ι} {current : Store} {i : ι}
    {phase : TaskPhase}
    (hrewritten : Rewritten edit configuration.text store D names task through current)
    (hknown : phase.Known edit configuration.text store names (task i).2) :
    (taskStep edit configuration (task i) phase current).1.left names.length ≤
      phase.left names.length - 1 := by
  cases phase with
  | waiting =>
      rw [taskStep]
      split <;> simp [TaskPhase.left]
  | edited payload =>
      obtain ⟨oid, original, updated, rfl, hprepared⟩ := hknown
      obtain ⟨id, current', hrun, -, hnames⟩ :=
        hrewritten.reassigning.write hstore hprepared ((task i).1 2)
      rw [taskStep_written hrun, hnames, hrewritten.names_eq]
      simp [TaskPhase.left]
  | listing collections queries =>
      cases collections with
      | nil => simp [taskStep, TaskPhase.left]
      | cons name collections =>
          rw [taskStep]
          split <;> simp [TaskPhase.left]
  | finished result => simp [taskStep, TaskPhase.left]

end TaskPool

/-! ## Runs of a pool -/

/-- The tasks of a pool run to their ends, in some order of their steps. -/
def RunsPool (edit : ConfigurationEdit) (configuration : OptionText)
    (tasks : List (Clock × VersionInfo)) (start : Store)
    (results : Fin tasks.length → Except Failure (List Value)) (final : Store) : Prop :=
  ∃ schedule : List (Fin tasks.length),
    GuardedRun.run (TaskPool.step fun i => taskStep edit configuration (tasks.get i))
      (waitingPool start) schedule = ⟨final, fun i => .finished (results i)⟩

section Run

variable {configuration : OptionText} {store start final : Store} {D : Set Place}
  {edit : ConfigurationEdit} {tasks : List (Clock × VersionInfo)}
  {results : Fin tasks.length → Except Failure (List Value)}
  (hstore : TidyStore store) (hsim : Reassigning configuration.text store start D)

theorem taskPlaces_univ (configuration : String) (store : Store)
    (tasks : List (Clock × VersionInfo)) :
    taskPlaces store tasks.get Set.univ =
      (assignments configuration store).changes (tasks.map Prod.snd) := by
  ext p
  constructor
  · rintro ⟨i, -, hp⟩
    exact ⟨_, List.mem_map.2 ⟨_, List.get_mem tasks i, rfl⟩, hp⟩
  · rintro ⟨member, hmember, hp⟩
    obtain ⟨task, htask, rfl⟩ := List.mem_map.1 hmember
    obtain ⟨i, rfl⟩ := List.mem_iff_get.1 htask
    exact ⟨i, Set.mem_univ i, hp⟩

include hstore hsim

/-- The pool leaves the places of all its tasks edited. -/
theorem RunsPool.reassigning (hrun : RunsPool edit configuration tasks start results final) :
    Reassigning configuration.text store final
      (edit.places D ((assignments configuration.text store).changes (tasks.map Prod.snd))) := by
  obtain ⟨schedule, hrun⟩ := hrun
  have hholds := (keeps_known hstore (start.map Prod.fst)).run
    ⟨rewritten_start edit tasks.get hsim, fun i => trivial⟩ schedule
  rw [hrun] at hholds
  have hall : TaskPool.through TaskPhase.acted
      (⟨final, fun i => .finished (results i)⟩ : TaskPool Store TaskPhase (Fin tasks.length)) =
        Set.univ := by
    ext i
    simp [TaskPool.through, TaskPhase.acted]
  have hshared := hholds.shared.reassigning
  rwa [hall, taskPlaces_univ configuration.text] at hshared

/-- No assignment of a pool fails if its members designate places and no document that
could be listed lacks an entity. -/
theorem RunsPool.answered
    (hentities : EntitiesAt configuration.text store
      (D ∪ (assignments configuration.text store).changes (tasks.map Prod.snd)))
    (hplaces : ∀ task ∈ tasks, ∃ p, Designates store task.2 p)
    (hrun : RunsPool .assign configuration tasks start results final) (i : Fin tasks.length) :
    ∃ queries, results i = .ok queries := by
  obtain ⟨schedule, hrun⟩ := hrun
  rw [← taskPlaces_univ] at hentities
  have hholds := (keeps_answers hstore (start.map Prod.fst) hentities fun i =>
    hplaces _ (List.get_mem tasks i)).run
      ⟨rewritten_start .assign tasks.get hsim, fun i => ⟨trivial, trivial⟩⟩ schedule
  rw [hrun] at hholds
  exact (hholds.phase i).2

/-- A schedule that gives each task enough steps lets all of them finish. -/
theorem runsPool_of_turns
    {schedule : List (Fin tasks.length)}
    (hturns : ∀ i, start.length + 3 ≤ schedule.count i) :
    ∃ results final, RunsPool edit configuration tasks start results final := by
  have hstart := rewritten_start edit tasks.get hsim
  have hkeeps := @keeps_known _ configuration store D edit tasks.get hstore (start.map Prod.fst)
  obtain ⟨ran, hran⟩ : ∃ ran, GuardedRun.run
      (TaskPool.step fun i => taskStep edit configuration (tasks.get i)) (waitingPool start)
      schedule = ran := ⟨_, rfl⟩
  have hfinished (i : Fin tasks.length) : ∃ result, ran.phase i = .finished result := by
    have hleft : (ran.phase i).left (start.map Prod.fst).length ≤
        (start.map Prod.fst).length + 3 - schedule.count i := by
      rw [← hran]
      exact hkeeps.left_le (fun _ _ _ _ hrewritten hknown => left_taskStep hstore hrewritten hknown)
        ⟨hstart, fun i => trivial⟩ schedule i
    have hcount := hturns i
    rw [List.length_map] at hleft
    have hzero : (ran.phase i).left start.length = 0 := by omega
    exact finished_of_left hzero
  choose results hresults using hfinished
  exact ⟨results, ran.shared, schedule, hran.trans (TaskPool.ext rfl (funext hresults))⟩

/-- The tasks can take turns until all of them finish. -/
theorem exists_runsPool (edit : ConfigurationEdit) (tasks : List (Clock × VersionInfo)) :
    ∃ results final, RunsPool edit configuration tasks start results final := by
  have hturns : ∀ i, start.length + 3 ≤
      (List.replicate (start.length + 3) (List.finRange tasks.length)).flatten.count i := by
    intro i
    have hone : (List.finRange tasks.length).count i = 1 :=
      List.count_eq_one_of_mem (List.nodup_finRange _) (List.mem_finRange i)
    rw [List.count_flatten, List.map_replicate, List.sum_replicate, hone]
    simp
  exact runsPool_of_turns hstore hsim hturns

end Run

/-! ## The call -/

/-- What a task hands to the pool. -/
def taskResult (messageText : Except Failure (List Value) → String)
    (result : Except Failure (List Value)) : TaskResult :=
  (result.isOk, messageText result)

/-- The assignments of `storeGlobalConfiguration_mt`.  A member that does not validate
throws, and the pool runs the tasks that it has before it is destroyed. -/
inductive AssignsInterleaved (messageText : Except Failure (List Value) → String)
    (configuration : OptionText) (membersToAssign : List VersionInfo) (start : Store) :
    Except Failure Unit → Store → Prop
  | none (hnone : membersToAssign = []) :
      AssignsInterleaved messageText configuration membersToAssign start (.ok ()) start
  | invalid {e tasks results final}
      (hinvalid : membersToAssign.forM VersionInfo.validate = .error e)
      (htasks : (tasks.map Prod.snd).Perm
        (membersToAssign.takeWhile fun member => member.validate.isOk))
      (hrun : RunsPool .assign configuration tasks start results final) :
      AssignsInterleaved messageText configuration membersToAssign start (.error e) final
  | merged {tasks results final handed} (hsome : membersToAssign ≠ [])
      (hvalid : membersToAssign.forM VersionInfo.validate = .ok ())
      (htasks : (tasks.map Prod.snd).Perm membersToAssign)
      (hrun : RunsPool .assign configuration tasks start results final)
      (hhanded : handed.Perm (List.ofFn fun i => taskResult messageText (results i))) :
      AssignsInterleaved messageText configuration membersToAssign start
        (if (mergeResults handed).1 then .ok () else .error (.runtimeError (mergeResults handed).2))
        final

/-- `storeGlobalConfiguration_mt` with the steps of its tasks in any order. -/
inductive StoresInterleaved (toTimepoint : String → Except Failure ℤ)
    (messageText : Except Failure (List Value) → String) (configuration : OptionText)
    (newMembers : List VersionInfo) (overwrite : Bool) (store : Store) :
    Except Failure Unit → Store → Prop
  | empty (hempty : newMembers = []) :
      StoresInterleaved toTimepoint messageText configuration newMembers overwrite store
        (.error (.invalidArgument
          "Version info list is empty. Compositions must have at least one member.")) store
  | refused {e} (hsome : newMembers ≠ [])
      (hchange : parallelChange toTimepoint configuration newMembers overwrite store = .error e) :
      StoresInterleaved toTimepoint messageText configuration newMembers overwrite store (.error e)
        store
  | stored {change tasks results start result final} (hsome : newMembers ≠ [])
      (hchange : parallelChange toTimepoint configuration newMembers overwrite store = .ok change)
      (htasks : (tasks.map Prod.snd).Perm change.1)
      (hunassigns : RunsPool .remove configuration tasks store results start)
      (hassigns : AssignsInterleaved messageText configuration change.2 start result final) :
      StoresInterleaved toTimepoint messageText configuration newMembers overwrite store result
        final

/-! ## What the call leaves -/

section Stored

variable {toTimepoint : String → Except Failure ℤ}
  {messageText : Except Failure (List Value) → String} {configuration : OptionText}
  {oldMembers newMembers : List VersionInfo} {D : Set Place} {allowOverwrite : Bool}
  {store final : Store} {result : Except Failure Unit}

/-- The tasks of a call can finish. -/
theorem exists_storesInterleaved (hstore : TidyStore store) :
    ∃ result final, StoresInterleaved toTimepoint messageText configuration newMembers
      allowOverwrite store result final := by
  have htasks (members : List VersionInfo) : ((members.map fun member =>
      (exampleClock, member)).map Prod.snd).Perm members := by
    simp [Function.comp_def]
  by_cases hempty : newMembers = []
  · exact ⟨_, _, .empty hempty⟩
  cases hchange : parallelChange toTimepoint configuration newMembers allowOverwrite store with
  | error e => exact ⟨_, _, .refused hempty hchange⟩
  | ok change =>
      obtain ⟨results, start, hunassigns⟩ := exists_runsPool hstore
        (reassigning_refl hstore configuration.text) .remove
        (change.1.map fun member => (exampleClock, member))
      have hsim := hunassigns.reassigning hstore (reassigning_refl hstore configuration.text)
      have hassigns (members : List VersionInfo) :=
        exists_runsPool hstore hsim .assign (members.map fun member => (exampleClock, member))
      suffices h : ∃ result final, AssignsInterleaved messageText configuration change.2 start
          result final by
        obtain ⟨result, final, h⟩ := h
        exact ⟨result, final, .stored hempty hchange (htasks _) hunassigns h⟩
      by_cases hnone : change.2 = []
      · exact ⟨_, _, .none hnone⟩
      cases hvalid : change.2.forM VersionInfo.validate with
      | error e =>
          obtain ⟨results, final, hrun⟩ := hassigns
            (change.2.takeWhile fun member => member.validate.isOk)
          exact ⟨_, _, .invalid hvalid (htasks _) hrun⟩
      | ok u =>
          obtain ⟨results, final, hrun⟩ := hassigns change.2
          exact ⟨_, _, .merged hnone hvalid (htasks _) hrun (List.Perm.refl _)⟩

end Stored

theorem carrying_assignedStore_other : carrying "other" assignedStore = ∅ := by
  have hconfigurations : documentConfigurations assignedDocument = ["global"] := by
    decide +kernel
  rw [Set.eq_empty_iff_forall_notMem]
  rintro p ⟨document, hdocument, hcarries⟩
  rw [(assignedStore_documents hdocument).2.2, hconfigurations, List.mem_singleton] at hcarries
  exact absurd hcarries (by decide)

end ArtdaqDatabase
