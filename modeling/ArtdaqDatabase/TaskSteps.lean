import ArtdaqDatabase.InterleavedTasks
import ArtdaqDatabase.StoredConfigurations

/-!
# The steps of a task

A task of `storeGlobalConfiguration_mt` searches its document, writes the edited one and
lists the composition, one collection after the other.  Each of these steps takes the
mutex of one index, and between them other tasks take theirs: what the task writes was
read from an earlier store.
-/

namespace ArtdaqDatabase

open OrderedTable InPlaceUpdate BatchUpdate InterleavedTasks

/-! ## Tasks -/

/-- Where a task is in `assignConfiguration` or `removeConfiguration`. -/
inductive TaskPhase where
  | waiting
  | edited (payload : Value)
  | listing (collections : List String) (queries : List Value)
  | finished (result : Except Failure (List Value))

/-- The next step of a task. -/
def taskStep (edit : ConfigurationEdit) (configuration : OptionText)
    (task : Clock × VersionInfo) : TaskPhase → Store → TaskPhase × Store
  | .waiting, store =>
      match configurationPayload task.1 edit (memberOptions edit configuration task.2) store with
      | .ok payload => (.edited payload, store)
      | .error e => (.finished (.error e), store)
  | .edited payload, store =>
      match writeDocument (task.1 2) payload store with
      | .ok _ store' => (.listing (store'.map Prod.fst) [], store')
      | .error e store' => (.finished (.error e), store')
  | .listing [] queries, store =>
      (.finished
        (if queries = [] then .error (.runtimeError "No search filters were found.")
        else .ok queries), store)
  | .listing (name :: collections) queries, store =>
      match compositionOf [("configurations.name", .string configuration.text)]
        (name, collectionAt name store) with
      | .ok found => (.listing collections (queries ++ found), store)
      | .error e => (.finished (.error e), store)
  | .finished result, store => (.finished result, store)

/-- The task has written, or will not write any more. -/
def TaskPhase.acted : TaskPhase → Prop
  | .waiting | .edited _ => False
  | .listing _ _ | .finished _ => True

/-- How many steps a task has left while there are that many collections. -/
def TaskPhase.left (count : ℕ) : TaskPhase → ℕ
  | .waiting => count + 3
  | .edited _ => count + 2
  | .listing collections _ => collections.length + 1
  | .finished _ => 0

/-! ## The write of an edited document -/

/-- The document that a task has searched for, as it was in the first store, and edited. -/
structure Prepared (edit : ConfigurationEdit) (configuration : String) (store : Store)
    (member : VersionInfo) (oid : String) (original updated : Object) : Prop where
  stored : documentAt store (provided member.configuration).text oid = some original
  read : readDocument (memberSearch member) store = .ok original
  placed : Placed (provided member.configuration).text oid updated
  indexable : Indexable updated
  alike : Alike original updated
  others : ∀ x, x ≠ configuration →
    (x ∈ documentConfigurations updated ↔ x ∈ documentConfigurations original)
  carries_iff : configuration ∈ documentConfigurations updated ↔
    if Writable original then edit = .assign else configuration ∈ documentConfigurations original

section Task

variable {configuration : OptionText} {store current : Store} {D : Set Place}
  (hstore : TidyStore store) (hsim : Reassigning configuration.text store current D)
  {edit : ConfigurationEdit} {member : VersionInfo}
include hstore hsim

/-- A search in a later store prepares what one in the first store would have. -/
theorem Reassigning.prepared
    (edit : ConfigurationEdit) (clock : Clock) {original : Object}
    (hread : readDocument (memberSearch member) store = .ok original) :
    ∃ oid updated, configurationPayload clock edit (memberOptions edit configuration member)
        current = .ok (updatePayload oid updated) ∧
      Prepared edit configuration.text store member oid original updated := by
  obtain ⟨document, hread', oid, horiginal, hdocument⟩ :=
    readDocument_alike hstore hsim.tidy hsim.alike hread
  have hplaced := hsim.tidy.placed _ _ _ hdocument
  have hindexable := hsim.tidy.indexable _ _ _ hdocument
  have hpayload := configurationPayload_run hplaced hindexable clock
    ((selectDocument_memberOptions edit configuration member current).trans hread') rfl
  have hspec : Reassigned edit configuration.text document
      (reassigned clock edit (memberOptions edit configuration member) document) :=
    @reassigned_spec _ _ _ (memberOptions edit configuration member) edit hplaced hindexable clock
  have hown := @placed_reassigned _ _ _ (memberOptions edit configuration member) edit
    hplaced hindexable clock
  obtain ⟨other, hother, halike⟩ := hsim.alike.documentAt horiginal
  rw [hdocument, Option.some.injEq] at hother
  subst hother
  refine ⟨oid, _, hpayload, horiginal, hread, hown, hspec.indexable, ?_, fun x hx => ?_, ?_⟩
  · exact halike.trans ⟨hspec.lookup_eq "version" (by decide),
      hspec.lookup_eq "entities" (by decide), hspec.writable_iff⟩
  · rw [hspec.others x hx]
    exact hsim.others (_, oid) original document horiginal hdocument x hx
  · rw [hspec.carries_iff]
    by_cases hwritable : Writable original
    · rw [if_pos hwritable, if_pos (halike.writable.2 hwritable)]
    · rw [if_neg hwritable, if_neg fun h => hwritable (halike.writable.1 h),
        hsim.carried (_, oid) document hdocument]
      exact hsim.frozen (_, oid) original horiginal hwritable

/-- The write of what was prepared, whatever was written in between. -/
theorem Reassigning.write
    {oid : String} {original updated : Object}
    (hprepared : Prepared edit configuration.text store member oid original updated)
    (env : Environment) :
    ∃ id current', writeDocument env (updatePayload oid updated) current = .ok id current' ∧
      Reassigning configuration.text store current'
        (edit.places D (writablePlaces store member)) ∧
      current'.map Prod.fst = current.map Prod.fst := by
  obtain ⟨request, hrequest, hcollection, hoid, hnew, hupdated⟩ :=
    writeRequest_update hprepared.placed env
  have hcheck : checkInsert request (collectionAt request.collection current) = .ok () := by
    simp [checkInsert, hnew]
  have hrun := writeDocument_run hrequest hcheck
  obtain ⟨document, hdocument, halike⟩ := hsim.alike.documentAt hprepared.stored
  rw [← hcollection, ← hoid] at hdocument
  have hkept := halike.symm.trans hprepared.alike
  have hlisted : ListedCollection
      ((collectionAt request.collection current).replaced request) := by
    refine listedCollection_replaced (hsim.tidy.collectionAt _) hdocument hnew
      (hsim.tidy.indexable _ _ _ hdocument) ?_ ?_
    · rw [hupdated]
      exact hprepared.indexable
    · rw [hupdated]
      exact hkept.documentEntities
  have hdocuments (name' oid' : String) : documentAt (set request.collection
      ((collectionAt request.collection current).replaced request) current) name' oid' =
        if name' = (provided member.configuration).text ∧ oid' = oid then some updated
        else documentAt current name' oid' := by
    rw [documentAt, collectionAt_set, ← hcollection, ← hoid]
    by_cases hname : name' = request.collection
    · rw [if_pos hname, stored_replaced, Function.update_apply, hupdated, hname]
      simp [documentAt]
    · rw [if_neg hname, if_neg fun h => hname h.1]
      rfl
  refine ⟨_, _, hrun, ⟨⟨hsim.tidy.toListedStore.set hlisted, ?_, ?_⟩, ?_, ?_, ?_, ?_, ?_⟩, ?_⟩
  · intro name' oid' found hfound
    rw [hdocuments] at hfound
    split at hfound
    · rename_i hplace
      rw [hplace.1, hplace.2, ← Option.some.inj hfound]
      exact hprepared.placed
    · exact hsim.tidy.placed _ _ _ hfound
  · intro name' oid' found hfound
    rw [hdocuments] at hfound
    split at hfound
    · rw [← Option.some.inj hfound]
      exact hprepared.indexable
    · exact hsim.tidy.indexable _ _ _ hfound
  · intro name' oid'
    rw [hdocuments]
    split
    · rename_i hplace
      rw [hplace.1, hplace.2, hprepared.stored]
      exact Option.Rel.some hprepared.alike
    · exact hsim.alike name' oid'
  · intro p first found hfirst hfound x hx
    rw [hdocuments] at hfound
    split at hfound
    · rename_i hplace
      rw [hplace.1, hplace.2, hprepared.stored, Option.some.injEq] at hfirst
      rw [← Option.some.inj hfound, hprepared.others x hx, ← hfirst]
    · exact hsim.others p first found hfirst hfound x hx
  · intro p found hfound
    rw [edit.mem_places, mem_writablePlaces hstore hprepared.stored hprepared.read]
    rw [hdocuments] at hfound
    split at hfound
    · rename_i hplace
      have hp : p = ((provided member.configuration).text, oid) := Prod.ext hplace.1 hplace.2
      rw [← Option.some.inj hfound, hprepared.carries_iff]
      by_cases hwritable : Writable original
      · simp [hwritable, hp]
      · have hfrozen := hsim.frozen (_, oid) original hprepared.stored hwritable
        simp [hwritable, hp, hfrozen]
    · rename_i hplace
      simp only [hplace, false_and, false_or, not_false_eq_true, true_and]
      exact hsim.carried p found hfound
  · intro p hp
    rcases (edit.mem_places _ _ p).1 hp with ⟨⟨-, found, hfound, -⟩, -⟩ | ⟨-, hmem⟩
    · exact ⟨found, hfound⟩
    · exact hsim.stored p hmem
  · intro p found hfound hfrozen
    have hnot : p ∉ writablePlaces store member := by
      rintro ⟨-, other, hother, -, hwritable⟩
      rw [hfound, Option.some.injEq] at hother
      exact hfrozen (hother ▸ hwritable)
    simp only [edit.mem_places, hnot, false_and, not_false_eq_true, true_and, false_or]
    exact hsim.frozen p found hfound hfrozen
  · obtain ⟨c, hmem, -⟩ := exists_mem_of_documentAt hdocument
    rw [keys_set, if_pos (List.mem_map.2 ⟨_, hmem, rfl⟩)]

end Task

/-! ## One step of a task -/

/-- The places that the tasks write. -/
def taskPlaces {ι : Type} (store : Store) (task : ι → Clock × VersionInfo) (through : Set ι) :
    Set Place :=
  {p | ∃ i ∈ through, p ∈ writablePlaces store (task i).2}

/-- The first store with the configuration at the places of the tasks that have written. -/
structure Rewritten {ι : Type} (edit : ConfigurationEdit) (configuration : String) (store : Store)
    (D : Set Place) (names : List String) (task : ι → Clock × VersionInfo) (through : Set ι)
    (current : Store) : Prop where
  reassigning : Reassigning configuration store current
    (edit.places D (taskPlaces store task through))
  names_eq : current.map Prod.fst = names

/-- What is known of a task by its phase. -/
def TaskPhase.Known (edit : ConfigurationEdit) (configuration : String) (store : Store)
    (names : List String) (member : VersionInfo) : TaskPhase → Prop
  | .edited payload => ∃ oid original updated, payload = updatePayload oid updated ∧
      Prepared edit configuration store member oid original updated
  | .listing collections _ => collections <:+ names
  | _ => True

section Step

variable {ι : Type} {configuration : OptionText} {store current : Store} {D : Set Place}
  {names : List String} {edit : ConfigurationEdit} {task : ι → Clock × VersionInfo}
  {through : Set ι} {i : ι}

theorem taskPlaces_insert (edit : ConfigurationEdit) (D : Set Place) (through : Set ι) (i : ι) :
    edit.places D (taskPlaces store task (through ∪ {j | j = i})) =
      edit.places (edit.places D (taskPlaces store task through))
        (writablePlaces store (task i).2) := by
  have hplaces : taskPlaces store task (through ∪ {j | j = i}) =
      taskPlaces store task through ∪ writablePlaces store (task i).2 := by
    ext p
    simp [taskPlaces, or_comm]
  rw [hplaces]
  cases edit with
  | assign => exact (Set.union_assoc _ _ _).symm
  | remove => exact Set.sdiff_sdiff.symm

theorem taskStep_selected
    {payload : Value} (hpayload : configurationPayload (task i).1 edit
      (memberOptions edit configuration (task i).2) current = .ok payload) :
    taskStep edit configuration (task i) .waiting current = (.edited payload, current) := by
  rw [taskStep, hpayload]

theorem taskStep_unselected
    {e : Failure} (hpayload : configurationPayload (task i).1 edit
      (memberOptions edit configuration (task i).2) current = .error e) :
    taskStep edit configuration (task i) .waiting current = (.finished (.error e), current) := by
  rw [taskStep, hpayload]

theorem taskStep_written
    {payload id : Value} {current' : Store}
    (hrun : writeDocument ((task i).1 2) payload current = .ok id current') :
    taskStep edit configuration (task i) (.edited payload) current =
      (.listing (current'.map Prod.fst) [], current') := by
  rw [taskStep, hrun]

variable (hstore : TidyStore store)
  (hrewritten : Rewritten edit configuration.text store D names task through current)
include hstore hrewritten

/-- A search that finds nothing ends the task, which has no place to write. -/
theorem Rewritten.unselected
    (hselects : ¬ ∃ original, readDocument (memberSearch (task i).2) store = .ok original) :
    (∃ e, configurationPayload (task i).1 edit (memberOptions edit configuration (task i).2)
      current = .error e) ∧ writablePlaces store (task i).2 = ∅ := by
  constructor
  · rw [← hrewritten.reassigning.selects_iff hstore] at hselects
    cases hread : readDocument (memberSearch (task i).2) current with
    | ok document => exact absurd ⟨document, hread⟩ hselects
    | error e =>
        have hselect : selectDocument (memberOptions edit configuration (task i).2) current =
            .error e :=
          (selectDocument_memberOptions edit configuration (task i).2 current).trans hread
        have hconfirm : confirm (decide
            ((memberOptions edit configuration (task i).2).operation = edit.name)) = .ok () := by
          simp [confirm, memberOptions]
        refine ⟨e, ?_⟩
        rw [configurationPayload, hconfirm]
        simp only [hselect, bind, Except.bind]
  · rw [Set.eq_empty_iff_forall_notMem]
    rintro p ⟨-, original, -, hread, -⟩
    exact hselects ⟨original, hread⟩

/-- One step of a task: what is known of it, and the store. -/
theorem Rewritten.step
    {phase : TaskPhase} (hacted : i ∈ through ↔ phase.acted)
    (hknown : phase.Known edit configuration.text store names (task i).2) :
    (taskStep edit configuration (task i) phase current).1.Known edit configuration.text store
        names (task i).2 ∧
      (phase.acted → (taskStep edit configuration (task i) phase current).1.acted) ∧
      Rewritten edit configuration.text store D names task
        (through ∪ {j | j = i ∧ (taskStep edit configuration (task i) phase current).1.acted})
        (taskStep edit configuration (task i) phase current).2 := by
  have hsame (x : TaskPhase) (hx : x.acted → phase.acted) :
      through ∪ {j | j = i ∧ x.acted} = through := by
    rw [Set.union_eq_left]
    rintro j ⟨rfl, hj⟩
    exact hacted.2 (hx hj)
  have hinsert (x : TaskPhase) (hx : x.acted) :
      through ∪ {j | j = i ∧ x.acted} = through ∪ {j | j = i} := by
    simp [hx]
  cases phase with
  | waiting =>
      by_cases hselects : ∃ original, readDocument (memberSearch (task i).2) store = .ok original
      · obtain ⟨original, hread⟩ := hselects
        obtain ⟨oid, updated, hpayload, hprepared⟩ :=
          hrewritten.reassigning.prepared hstore edit (task i).1 hread
        rw [taskStep_selected hpayload]
        dsimp only
        rw [hsame (.edited (updatePayload oid updated)) id]
        exact ⟨⟨oid, original, updated, rfl, hprepared⟩, False.elim, hrewritten⟩
      · obtain ⟨⟨e, hpayload⟩, hnone⟩ := hrewritten.unselected hstore hselects
        rw [taskStep_unselected hpayload]
        dsimp only
        rw [hinsert (.finished (.error e)) trivial]
        refine ⟨trivial, False.elim, ?_, hrewritten.names_eq⟩
        have hplaces := @taskPlaces_insert ι store task edit D through i
        rw [hnone] at hplaces
        have hkept : edit.places (edit.places D (taskPlaces store task through)) ∅ =
            edit.places D (taskPlaces store task through) := by
          cases edit <;> simp [ConfigurationEdit.places]
        rw [hplaces, hkept]
        exact hrewritten.reassigning
  | edited payload =>
      obtain ⟨oid, original, updated, rfl, hprepared⟩ := hknown
      obtain ⟨id, current', hrun, hsim, hnames⟩ :=
        hrewritten.reassigning.write hstore hprepared ((task i).1 2)
      rw [taskStep_written hrun]
      dsimp only
      rw [hinsert (.listing (current'.map Prod.fst) []) trivial]
      rw [hrewritten.names_eq] at hnames
      refine ⟨?_, False.elim, ?_, hnames⟩
      · exact hnames ▸ List.suffix_refl _
      · rw [taskPlaces_insert]
        exact hsim
  | listing collections queries =>
      rw [hsame _ fun _ => trivial]
      cases collections with
      | nil => exact ⟨trivial, fun _ => trivial, hrewritten⟩
      | cons name collections =>
          rw [taskStep]
          split
          · exact ⟨(List.suffix_cons name collections).trans hknown, fun _ => trivial, hrewritten⟩
          · exact ⟨trivial, fun _ => trivial, hrewritten⟩
  | finished result =>
      rw [hsame _ fun _ => trivial]
      exact ⟨trivial, fun _ => trivial, hrewritten⟩

end Step

/-! ## The answer of an assignment -/

/-- The list will have the document of the task, and the task does not fail. -/
def TaskPhase.Answers (collection : String) : TaskPhase → Prop
  | .listing collections queries => collection ∈ collections ∨ queries ≠ []
  | .finished result => ∃ queries, result = .ok queries
  | _ => True

theorem Composes.entitiesAt
    {configuration : String} {store : Store} {D : Set Place} {members : List VersionInfo}
    (hstar : NoStar configuration) (hcomposes : Composes store members D) :
    EntitiesAt configuration store D := by
  rintro p document hdocument (hp | ⟨value, -, hne, haccept⟩)
  · obtain ⟨member, -, hplace⟩ := hcomposes.named p hp
    obtain ⟨other, hother, -, hhas⟩ := hplace.document
    rw [hdocument, Option.some.injEq] at hother
    rw [← hother] at hhas
    exact List.ne_nil_of_mem ((hhas.entity member.entity).2 rfl)
  · exact absurd ((acceptValue_of_noStar hstar value).1 haccept) hne

section Answer

variable {ι : Type} {configuration : OptionText} {store current : Store} {D : Set Place}
  {names : List String} {task : ι → Clock × VersionInfo} {through : Set ι} {i : ι}
  (hrewritten : Rewritten .assign configuration.text store D names task through current)
  (hentities : EntitiesAt configuration.text store (D ∪ taskPlaces store task Set.univ))
include hrewritten hentities

/-- No list of a collection throws. -/
theorem Rewritten.lists
    {name : String} (hname : name ∈ names) :
    (name, collectionAt name current) ∈ current ∧
      ∃ queries, compositionOf [("configurations.name", .string configuration.text)]
        (name, collectionAt name current) = .ok queries := by
  have hsim := hrewritten.reassigning
  have hsub : D ∪ taskPlaces store task through ⊆ D ∪ taskPlaces store task Set.univ := by
    rintro q (hq | ⟨j, -, hq⟩)
    · exact Or.inl hq
    · exact Or.inr ⟨j, Set.mem_univ j, hq⟩
  have hthere := entitiesAt_anti _ _ _ _ hsub hentities
  rw [← hrewritten.names_eq, List.mem_map] at hname
  obtain ⟨⟨_, c⟩, hmem, rfl⟩ := hname
  have hlookup : collectionAt _ current = c :=
    congrArg (Option.getD · Collection.empty) (lookup_of_mem hsim.tidy.names hmem)
  rw [hlookup]
  refine ⟨hmem, (compositionOf_returns_iff hsim.tidy.toListedStore configuration.text).2
    (fun name oid document hdocument haccepted => ?_) _ hmem⟩
  obtain ⟨original, horiginal, halike⟩ := hsim.alike.symm.documentAt hdocument
  rw [← halike.documentEntities]
  exact hthere (name, oid) original horiginal
    ((@Reassigning.accepted_iff _ _ _ _ hsim (name, oid) _ _ horiginal hdocument).1 haccepted)

variable (hstore : TidyStore store) {p : Place} (hplace : Designates store (task i).2 p)
include hstore hplace

/-- The list of its own collection has the document of a task that has written. -/
theorem Rewritten.lists_own
    (hi : i ∈ through) {queries : List Value}
    (hqueries : compositionOf [("configurations.name", .string configuration.text)]
      ((task i).2.configuration, collectionAt (task i).2.configuration current) = .ok queries) :
    queries ≠ [] := by
  have hsim := hrewritten.reassigning
  obtain ⟨original, horiginal, -⟩ := hplace.selects hstore
  obtain ⟨document, hdocument, -⟩ := hsim.alike.documentAt horiginal
  have hcarried : configuration.text ∈ documentConfigurations document := by
    refine (hsim.carried p document hdocument).2 (Or.inr ⟨i, hi, ?_⟩)
    rw [hplace.writablePlaces_eq hstore, Set.mem_singleton_iff]
  obtain ⟨c, hmem, -⟩ := exists_mem_of_documentAt hdocument
  have hname : (task i).2.configuration ∈ names := by
    rw [← hrewritten.names_eq, ← hplace.collection]
    exact List.mem_map.2 ⟨_, hmem, rfl⟩
  obtain ⟨hentry, -⟩ := hrewritten.lists hentities hname
  refine (compositionOf_ne_nil_iff hsim.tidy.toListedStore configuration.text hentry hqueries).2
    ⟨p.2, document, ?_, configuration.text, hcarried, acceptValue_self _⟩
  rw [← hplace.collection]
  exact hdocument

/-- One step of an assignment: it does not fail. -/
theorem Rewritten.step_answers
    {phase : TaskPhase} (hacted : i ∈ through ↔ phase.acted)
    (hknown : phase.Known .assign configuration.text store names (task i).2)
    (hanswers : phase.Answers (task i).2.configuration) :
    (taskStep .assign configuration (task i) phase current).1.Answers
      (task i).2.configuration := by
  have hsim := hrewritten.reassigning
  cases phase with
  | waiting =>
      obtain ⟨original, -, -, -, hread⟩ := hplace.selects hstore
      obtain ⟨oid, updated, hpayload, -⟩ := hsim.prepared hstore .assign (task i).1 hread
      rw [taskStep_selected hpayload]
      trivial
  | edited payload =>
      obtain ⟨oid, original, updated, rfl, hprepared⟩ := hknown
      obtain ⟨id, current', hrun, -, hnames⟩ := hsim.write hstore hprepared ((task i).1 2)
      obtain ⟨original, horiginal, -⟩ := hplace.selects hstore
      obtain ⟨document, hdocument, -⟩ := hsim.alike.documentAt horiginal
      obtain ⟨c, hmem, -⟩ := exists_mem_of_documentAt hdocument
      rw [taskStep_written hrun, hnames]
      refine Or.inl ?_
      rw [← hplace.collection]
      exact List.mem_map.2 ⟨_, hmem, rfl⟩
  | listing collections queries =>
      cases collections with
      | nil =>
          have hne : queries ≠ [] := hanswers.resolve_left List.not_mem_nil
          exact ⟨queries, by rw [if_neg hne]⟩
      | cons name collections =>
          have hname : name ∈ names := hknown.subset List.mem_cons_self
          obtain ⟨-, found, hfound⟩ := hrewritten.lists hentities hname
          rw [taskStep, hfound]
          rcases hanswers with hmem | hne
          · rcases List.mem_cons.1 hmem with rfl | hrest
            · have hown := hrewritten.lists_own hentities hstore hplace (hacted.2 trivial) hfound
              exact Or.inr (List.append_ne_nil_of_right_ne_nil queries hown)
            · exact Or.inl hrest
          · exact Or.inr (List.append_ne_nil_of_left_ne_nil hne found)
  | finished result => exact hanswers

end Answer

/-! ## One task alone -/

/-- The phase in which a call leaves its task, and the store. -/
def endOf : EStateM.Result Failure Store (List Value) → TaskPhase × Store
  | .ok queries store => (.finished (.ok queries), store)
  | .error e store => (.finished (.error e), store)

section Alone

variable {edit : ConfigurationEdit} {configuration : OptionText} {task : Clock × VersionInfo}
  {store : Store}

/-- The steps of a task that nobody interrupts. -/
def advance (edit : ConfigurationEdit) (configuration : OptionText) (task : Clock × VersionInfo)
    (p : TaskPhase × Store) : TaskPhase × Store :=
  taskStep edit configuration task p.1 p.2

theorem nodup_names_written
    {env : Environment} {payload id : Value} {store' : Store} (hnames : (store.map Prod.fst).Nodup)
    (hrun : writeDocument env payload store = .ok id store') : (store'.map Prod.fst).Nodup := by
  cases hrequest : writeRequest env payload with
  | error e =>
      rw [writeDocument, bind_error (lift_run_error hrequest store)] at hrun
      cases hrun
  | ok request =>
      have hafter := after_of_ok hrun
      rw [after_writeDocument hrequest] at hafter
      rw [← hafter, keys_set]
      split
      · exact hnames
      · rename_i hname
        exact List.nodup_append.2 ⟨hnames, List.nodup_singleton _, fun a ha b hb => by
          rw [List.mem_singleton.1 hb]
          exact fun h => hname (h ▸ ha)⟩

theorem compositionQueries_eq (search : Object) (store : Store) :
    compositionQueries search store =
      (store.mapM (compositionOf search) >>= fun lists =>
        if [] ++ lists.flatten = [] then .error (.runtimeError "No search filters were found.")
        else .ok ([] ++ lists.flatten)) := by
  rw [compositionQueries, configurationComposition]
  cases store.mapM (compositionOf search) with
  | error e => rfl
  | ok lists => rfl

/-- The list of the composition, one collection after the other. -/
theorem listing_alone
    (hnames : (store.map Prod.fst).Nodup) (queries : List Value) {entries : Store}
    (hentries : entries ⊆ store) :
    ∃ n, (advance edit configuration task)^[n] (.listing (entries.map Prod.fst) queries, store) =
      endOf (lift (entries.mapM (compositionOf
        [("configurations.name", .string configuration.text)]) >>= fun lists =>
          if queries ++ lists.flatten = [] then
            .error (.runtimeError "No search filters were found.")
          else .ok (queries ++ lists.flatten)) store) := by
  induction entries generalizing queries with
  | nil =>
      refine ⟨1, ?_⟩
      simp only [Function.iterate_one, advance, List.map_nil, taskStep]
      by_cases hnone : queries = []
      · simp [hnone, pure, Except.pure, bind, Except.bind, endOf, lift]
        rfl
      · simp [hnone, pure, Except.pure, bind, Except.bind, endOf, lift]
        rfl
  | cons entry entries ih =>
      obtain ⟨name, c⟩ := entry
      obtain ⟨hentry, hrest⟩ := List.cons_subset.1 hentries
      have hlookup : collectionAt name store = c :=
        congrArg (Option.getD · Collection.empty) (lookup_of_mem hnames hentry)
      rw [List.mapM_cons]
      cases hlist : compositionOf [("configurations.name", .string configuration.text)]
        (name, c) with
      | error e =>
          refine ⟨1, ?_⟩
          simp only [Function.iterate_one, advance, List.map_cons, taskStep, hlookup, hlist]
          rfl
      | ok found =>
          obtain ⟨n, hn⟩ := ih (queries ++ found) hrest
          refine ⟨n + 1, ?_⟩
          rw [Function.iterate_succ_apply]
          simp only [advance, List.map_cons, taskStep, hlookup, hlist]
          rw [hn]
          cases entries.mapM (compositionOf
            [("configurations.name", .string configuration.text)]) with
          | error e => rfl
          | ok lists => simp [bind, Except.bind, pure, Except.pure]

/-- A task that runs alone does what the call does at once. -/
theorem task_alone (hnames : (store.map Prod.fst).Nodup) :
    ∃ n, (advance edit configuration task)^[n] (.waiting, store) =
      endOf (editConfiguration task.1 edit (memberOptions edit configuration task.2) store) := by
  have hsecond (n : ℕ) (x : TaskPhase × Store) :
      (advance edit configuration task)^[n + 1] x =
        (advance edit configuration task)^[n] (advance edit configuration task x) :=
    Function.iterate_succ_apply _ _ _
  cases hpayload : configurationPayload task.1 edit (memberOptions edit configuration task.2)
    store with
  | error e =>
      refine ⟨1, ?_⟩
      rw [editConfiguration, rewriteConfiguration, bind_error (bind_error (fetch_error hpayload))]
      simp only [Function.iterate_one, advance, taskStep, hpayload, endOf]
  | ok payload =>
      have hrewrite : rewriteConfiguration task.1 edit (memberOptions edit configuration task.2)
          store = writeDocument (task.1 2) payload store := by
        rw [rewriteConfiguration, bind_run (fetch_ok hpayload)]
      have hfirst : advance edit configuration task (.waiting, store) =
          (.edited payload, store) := by
        simp only [advance, taskStep, hpayload]
      cases hrun : writeDocument (task.1 2) payload store with
      | error e store' =>
          refine ⟨2, ?_⟩
          rw [editConfiguration, bind_error (hrewrite.trans hrun), hsecond, hfirst]
          simp only [Function.iterate_one, advance, taskStep, hrun, endOf]
      | ok id store' =>
          have hnames' := nodup_names_written hnames hrun
          obtain ⟨n, hn⟩ := @listing_alone edit configuration task store' hnames' []
            store' (List.Subset.refl _)
          refine ⟨n + 2, ?_⟩
          have hwritten : advance edit configuration task (.edited payload, store) =
              (.listing (store'.map Prod.fst) [], store') := by
            simp only [advance, taskStep, hrun]
          rw [editConfiguration, bind_run (hrewrite.trans hrun), hsecond, hfirst, hsecond,
            hwritten, hn, ← compositionQueries_eq]
          rfl

end Alone

end ArtdaqDatabase
