import ArtdaqDatabase.InsertUniqueness
import ArtdaqDatabase.StagedCalls

/-!
# Concurrent writes

The threads of one process that write to one collection.  A scope of the index
takes the mutex of its path and reads the index file, and gives the file and the
mutex back at its end.  A new document is checked in a first scope and written in a
second one; the search for its file is made before the first scope, without the
mutex.  The mutex makes every scope one stage of a call, so that the threads refine
a pool of calls in stages.
-/

namespace ArtdaqDatabase

open OrderedTable InvertedIndex InPlaceUpdate GuardedRun StagedCalls

/-! ## Threads and the mutex -/

/-- Where a thread is in `writeDocument`.  Inside a scope it has the index that was
read when the scope was opened. -/
inductive ThreadPhase where
  | started
  | fileAbsent
  | searching (index : SearchIndex)
  | checked
  | updating (index : SearchIndex)
  | written (index : SearchIndex)
  | finished (succeeded : Bool)
  deriving DecidableEq

/-- The thread is inside a scope of the index. -/
def ThreadPhase.inScope : ThreadPhase → Bool
  | .searching _ | .updating _ | .written _ => true
  | _ => false

/-- The files of the collection, the holder of the path mutex, and the threads. -/
structure Process (ι : Type) where
  documents : Table String Object
  index : SearchIndex
  owner : Option ι
  phase : ι → ThreadPhase

variable {ι : Type} (requests : ι → WriteRequest)

/-- No thread has begun. -/
def Process.start (c : Collection) : Process ι :=
  ⟨c.documents, c.index, none, fun _ => .started⟩

/-- The next step of one thread; a thread that waits for the mutex stays where it is. -/
def Process.step [DecidableEq ι] (p : Process ι) (i : ι) : Process ι :=
  match p.phase i with
  | .started =>
      { p with
        phase := Function.update p.phase i <|
          if (requests i).isNew then
            if (lookup (requests i).oid p.documents).isNone then .fileAbsent else .finished false
          else .checked }
  | .fileAbsent =>
      if p.owner = none then
        { p with owner := some i, phase := Function.update p.phase i (.searching p.index) }
      else p
  | .searching index =>
      { p with
        owner := none
        phase := Function.update p.phase i <|
          if (checkDuplicate (requests i) ⟨p.documents, index⟩).isOk then .checked
          else .finished false }
  | .checked =>
      if p.owner = none then
        { p with owner := some i, phase := Function.update p.phase i (.updating p.index) }
      else p
  | .updating index =>
      let c := Collection.replaced ⟨p.documents, index⟩ (requests i)
      { p with
        documents := c.documents
        phase := Function.update p.phase i (.written c.index) }
  | .written index =>
      { p with
        index := index
        owner := none
        phase := Function.update p.phase i (.finished true) }
  | .finished _ => p

/-! ## The pool of calls -/

/-- The two checks of a new document, and the write. -/
def writeCalls : Calls Collection ι where
  checks i :=
    if (requests i).isNew then
      [fun c => (c.stored (requests i).oid).isNone,
        fun c => (checkDuplicate (requests i) c).isOk]
    else []
  act i c := c.replaced (requests i)

/-- The index that the scope of a thread leaves. -/
def ThreadPhase.leaves (index : SearchIndex) : ThreadPhase → SearchIndex
  | .written index' => index'
  | _ => index

/-- The index as the next scope will read it. -/
def Process.currentIndex (p : Process ι) : SearchIndex :=
  p.owner.elim p.index fun i => (p.phase i).leaves p.index

/-- What the phase of a thread is as the phase of a call. -/
def callPhase (i : ι) : ThreadPhase → Phase Collection
  | .started => .pending ((writeCalls requests).checks i)
  | .fileAbsent | .searching _ =>
      .pending [fun c => (checkDuplicate (requests i) c).isOk]
  | .checked | .updating _ => .pending []
  | .written _ => .finished true
  | .finished b => .finished b

def Process.pool (p : Process ι) : Pool Collection ι where
  shared := ⟨p.documents, p.currentIndex⟩
  phase := fun i => callPhase requests i (p.phase i)

/-- The mutex is held by the thread inside a scope, and an open scope that has
written nothing has read what is in the file. -/
structure Locked (p : Process ι) : Prop where
  owner_iff : ∀ i, p.owner = some i ↔ (p.phase i).inScope = true
  searching_index : ∀ i index, p.phase i = .searching index → index = p.index
  updating_index : ∀ i index, p.phase i = .updating index → index = p.index

theorem locked_start (c : Collection) : Locked (Process.start c : Process ι) := by
  constructor <;> simp [Process.start, ThreadPhase.inScope]

theorem pool_start (c : Collection) :
    (Process.start c).pool requests = Pool.start (writeCalls requests) c := rfl

section Refinement

variable {requests} {p : Process ι} {i : ι}

/-- Only the thread that holds the mutex can be inside a scope. -/
theorem Locked.not_inScope
    (hp : Locked p) {j : ι} (hj : p.owner ≠ some j) : (p.phase j).inScope = false := by
  cases h : (p.phase j).inScope with
  | false => rfl
  | true => exact absurd ((hp.owner_iff j).2 h) hj

theorem currentIndex_of_owner (howner : p.owner = some i) :
    p.currentIndex = (p.phase i).leaves p.index := by
  rw [Process.currentIndex, howner]
  rfl

theorem currentIndex_of_free (howner : p.owner = none) : p.currentIndex = p.index := by
  rw [Process.currentIndex, howner]
  rfl

variable [DecidableEq ι]

theorem callPhase_update (phase : ι → ThreadPhase) (new : ThreadPhase) :
    (fun j => callPhase requests j (Function.update phase i new j)) =
      Function.update (fun j => callPhase requests j (phase j)) i
        (callPhase requests i new) := by
  funext j
  by_cases hj : j = i
  · subst hj
    simp
  · simp [Function.update_of_ne hj]

/-- The mutex after a step of one thread. -/
theorem locked_of_update
    (hp : Locked p) {p' : Process ι} {new : ThreadPhase}
    (hphase : p'.phase = Function.update p.phase i new)
    (howner : ∀ j, j ≠ i → (p'.owner = some j ↔ p.owner = some j))
    (hnew : p'.owner = some i ↔ new.inScope = true)
    (hindex : p'.index = p.index ∨ p.owner = some i)
    (hcopy : ∀ index, new = .searching index ∨ new = .updating index → index = p'.index) :
    Locked p' := by
  have hother : ∀ j index, j ≠ i → p.phase j = .searching index ∨ p.phase j = .updating index →
      index = p'.index := by
    intro j index hj hopen
    rcases hindex with hindex | hi
    · rw [hindex]
      exact hopen.elim (hp.searching_index j index) (hp.updating_index j index)
    · have hclosed := hp.not_inScope (j := j) (by
        rw [hi]
        exact fun h => hj (Option.some.inj h).symm)
      rcases hopen with hopen | hopen <;> simp [hopen, ThreadPhase.inScope] at hclosed
  refine ⟨fun j => ?_, fun j index hj => ?_, fun j index hj => ?_⟩
  · rw [hphase]
    by_cases hji : j = i
    · subst hji
      rw [Function.update_self]
      exact hnew
    · rw [Function.update_of_ne hji, howner j hji]
      exact hp.owner_iff j
  · rw [hphase] at hj
    by_cases hji : j = i
    · subst hji
      rw [Function.update_self] at hj
      exact hcopy index (Or.inl hj)
    · rw [Function.update_of_ne hji] at hj
      exact hother j index hji (Or.inl hj)
  · rw [hphase] at hj
    by_cases hji : j = i
    · subst hji
      rw [Function.update_self] at hj
      exact hcopy index (Or.inr hj)
    · rw [Function.update_of_ne hji] at hj
      exact hother j index hji (Or.inr hj)

/-- A step of a thread outside every scope leaves the current index alone. -/
theorem currentIndex_update (hi : p.owner ≠ some i) (new : ThreadPhase) :
    Process.currentIndex { p with phase := Function.update p.phase i new } =
      p.currentIndex := by
  unfold Process.currentIndex
  cases howner : p.owner with
  | none => rfl
  | some j =>
      have hj : j ≠ i := fun h => hi (by rw [howner, h])
      simp [Function.update_of_ne hj]

/-- The step of a thread keeps the mutex, and is no step of its call or one; the
call acts when the thread writes the file. -/
def Refines (requests : ι → WriteRequest) (p : Process ι) (i : ι) : Prop :=
  Locked (p.step requests i) ∧
    ((p.step requests i).pool requests = p.pool requests ∨
      ((p.pool requests).phase i = .pending [] → p.phase i = .updating p.index) ∧
        (p.step requests i).pool requests = (p.pool requests).step (writeCalls requests) i)

/-- A step that leaves the files and the phase of the call is no step of the call. -/
theorem pool_of_same
    {p' : Process ι} {new : ThreadPhase} (hdocuments : p'.documents = p.documents)
    (hindex : p'.currentIndex = p.currentIndex)
    (hphase : p'.phase = Function.update p.phase i new)
    (hsame : callPhase requests i new = callPhase requests i (p.phase i)) :
    p'.pool requests = p.pool requests := by
  rw [Process.pool, Process.pool, hdocuments, hindex, hphase, callPhase_update, hsame]
  congr 1
  exact Function.update_eq_self i fun j => callPhase requests j (p.phase j)

theorem refines_started (hp : Locked p) (hphase : p.phase i = .started) :
    Refines requests p i := by
  have howner : p.owner ≠ some i := by
    intro h
    have := (hp.owner_iff i).1 h
    simp [hphase, ThreadPhase.inScope] at this
  have hlocked : ∀ new : ThreadPhase, new.inScope = false →
      Locked { p with phase := Function.update p.phase i new } := by
    intro new hnew
    refine locked_of_update hp rfl (fun _ _ => Iff.rfl) (by simp [howner, hnew]) (Or.inl rfl)
      fun index hopen => ?_
    rcases hopen with rfl | rfl <;> simp [ThreadPhase.inScope] at hnew
  rw [Refines, Process.step, hphase]
  cases hnew : (requests i).isNew with
  | false =>
      refine ⟨hlocked .checked rfl, Or.inl ?_⟩
      refine pool_of_same rfl (currentIndex_update howner _) rfl ?_
      simp [hphase, callPhase, writeCalls, hnew]
  | true =>
      have hcall : (p.pool requests).phase i =
          .pending ((fun c => (c.stored (requests i).oid).isNone) ::
            [fun c => (checkDuplicate (requests i) c).isOk]) := by
        simp [Process.pool, hphase, callPhase, writeCalls, hnew]
      rw [step_check hcall]
      cases hfile : (lookup (requests i).oid p.documents).isNone with
      | true =>
          refine ⟨hlocked .fileAbsent rfl, Or.inr ⟨by simp [hcall], ?_⟩⟩
          simp only [Process.pool, if_true, callPhase_update, currentIndex_update howner,
            Collection.stored, hfile]
          rfl
      | false =>
          refine ⟨hlocked (.finished false) rfl, Or.inr ⟨by simp [hcall], ?_⟩⟩
          simp only [Process.pool, if_true, callPhase_update, Bool.false_eq_true, if_false,
            currentIndex_update howner, Collection.stored, hfile]
          rfl

/-- Opening a scope: the mutex is taken and the file is read, or the thread waits. -/
theorem refines_open
    (hp : Locked p) (new : SearchIndex → ThreadPhase)
    (hstep : p.step requests i =
      if p.owner = none then
        { p with owner := some i, phase := Function.update p.phase i (new p.index) }
      else p)
    (hscope : (new p.index).inScope = true) (hleaves : (new p.index).leaves p.index = p.index)
    (hcopy : ∀ index, new p.index = .searching index ∨ new p.index = .updating index →
      index = p.index)
    (hsame : callPhase requests i (new p.index) = callPhase requests i (p.phase i)) :
    Refines requests p i := by
  rw [Refines, hstep]
  by_cases howner : p.owner = none
  · rw [if_pos howner]
    refine ⟨?_, Or.inl (pool_of_same rfl ?_ rfl hsame)⟩
    · refine locked_of_update hp rfl (fun j hj => ?_) (by simp [hscope]) (Or.inl rfl) hcopy
      simp [howner, Ne.symm hj]
    · rw [currentIndex_of_free howner, currentIndex_of_owner (i := i) rfl]
      simpa using hleaves
  · rw [if_neg howner]
    exact ⟨hp, Or.inl rfl⟩

theorem refines_searching
    (hp : Locked p) {index : SearchIndex} (hphase : p.phase i = .searching index) :
    Refines requests p i := by
  have howner : p.owner = some i := (hp.owner_iff i).2 (by simp [hphase, ThreadPhase.inScope])
  have hindex : index = p.index := hp.searching_index i index hphase
  have hcurrent : p.currentIndex = p.index := by
    rw [currentIndex_of_owner howner, hphase]
    rfl
  have hlocked : ∀ new : ThreadPhase, new.inScope = false →
      Locked { p with owner := none, phase := Function.update p.phase i new } := by
    intro new hnew
    refine locked_of_update hp rfl (fun j hj => ?_) (by simp [hnew]) (Or.inl rfl)
      fun index hopen => ?_
    · simp [howner, Ne.symm hj]
    · rcases hopen with rfl | rfl <;> simp [ThreadPhase.inScope] at hnew
  have hcall : (p.pool requests).phase i =
      .pending [fun c => (checkDuplicate (requests i) c).isOk] := by
    simp [Process.pool, hphase, callPhase]
  subst hindex
  have hstep : p.step requests i =
      { p with
        owner := none
        phase := Function.update p.phase i <|
          if (checkDuplicate (requests i) ⟨p.documents, p.index⟩).isOk then .checked
          else .finished false } := by
    rw [Process.step, hphase]
  rw [Refines, hstep, step_check hcall]
  cases hresult : (checkDuplicate (requests i) ⟨p.documents, p.index⟩).isOk with
  | true =>
      refine ⟨hlocked .checked rfl, Or.inr ⟨by simp [hcall], ?_⟩⟩
      simp only [Process.pool, if_true, callPhase_update, hcurrent, hresult]
      rfl
  | false =>
      refine ⟨hlocked (.finished false) rfl, Or.inr ⟨by simp [hcall], ?_⟩⟩
      simp only [Process.pool, callPhase_update, Bool.false_eq_true, if_false, hcurrent,
        hresult]
      rfl

theorem refines_updating
    (hp : Locked p) {index : SearchIndex} (hphase : p.phase i = .updating index) :
    Refines requests p i := by
  have howner : p.owner = some i := (hp.owner_iff i).2 (by simp [hphase, ThreadPhase.inScope])
  have hindex : index = p.index := hp.updating_index i index hphase
  have hcurrent : p.currentIndex = p.index := by
    rw [currentIndex_of_owner howner, hphase]
    rfl
  have hcall : (p.pool requests).phase i = .pending [] := by
    simp [Process.pool, hphase, callPhase]
  rw [Refines, step_act hcall, Process.step, hphase]
  subst hindex
  refine ⟨?_, Or.inr ⟨fun _ => rfl, ?_⟩⟩
  · exact locked_of_update hp rfl (fun _ _ => Iff.rfl) (by simp [howner, ThreadPhase.inScope])
      (Or.inl rfl) (by simp)
  · simp only [Process.pool, callPhase_update, hcurrent]
    congr 1
    simp [Process.currentIndex, howner, ThreadPhase.leaves, writeCalls]

theorem refines_written
    (hp : Locked p) {index : SearchIndex} (hphase : p.phase i = .written index) :
    Refines requests p i := by
  have howner : p.owner = some i := (hp.owner_iff i).2 (by simp [hphase, ThreadPhase.inScope])
  have hcurrent : p.currentIndex = index := by
    rw [currentIndex_of_owner howner, hphase]
    rfl
  rw [Refines, Process.step, hphase]
  refine ⟨?_, Or.inl (pool_of_same rfl ?_ rfl (by simp [hphase, callPhase]))⟩
  · refine locked_of_update hp rfl (fun j hj => ?_) (by simp [ThreadPhase.inScope])
      (Or.inr howner) (by simp)
    simp [howner, Ne.symm hj]
  · rw [hcurrent]
    exact currentIndex_of_free rfl

/-- Every step of a thread refines the steps of its call. -/
theorem step_refines (hp : Locked p) (i : ι) : Refines requests p i := by
  cases hphase : p.phase i with
  | started => exact refines_started hp hphase
  | fileAbsent =>
      refine refines_open hp .searching ?_ rfl rfl (by simp) ?_
      · rw [Process.step, hphase]
      · simp [hphase, callPhase]
  | searching index => exact refines_searching hp hphase
  | checked =>
      refine refines_open hp .updating ?_ rfl rfl (by simp) ?_
      · rw [Process.step, hphase]
      · simp [hphase, callPhase]
  | updating index => exact refines_updating hp hphase
  | written index => exact refines_written hp hphase
  | finished b =>
      have hstep : p.step requests i = p := by
        rw [Process.step, hphase]
      rw [Refines, hstep]
      exact ⟨hp, Or.inl rfl⟩

end Refinement

/-! ## Serial writes -/

/-- A whole write, and whether it succeeds. -/
def writeOutcome (request : WriteRequest) (c : Collection) : Collection × Bool :=
  match writeToCollection request c with
  | .ok _ c' => (c', true)
  | .error _ c' => (c', false)

/-- Whole writes one after the other, with their outcomes. -/
def sequentialWrites : Collection → List ι → Collection × List (ι × Bool)
  | c, [] => (c, [])
  | c, i :: order =>
      let done := writeOutcome (requests i) c
      let rest := sequentialWrites done.1 order
      (rest.1, (i, done.2) :: rest.2)

section Serial

variable {requests}

theorem checkInsert_isOk (request : WriteRequest) (c : Collection) :
    (checkInsert request c).isOk =
      (!request.isNew || ((c.stored request.oid).isNone && (checkDuplicate request c).isOk)) := by
  rw [checkInsert]
  cases request.isNew <;> cases c.stored request.oid <;> simp [Except.isOk, Except.toBool]

theorem callAtOnce_writeCalls (c : Collection) (i : ι) :
    callAtOnce (writeCalls requests) c i = writeOutcome (requests i) c := by
  have hall : ((writeCalls requests).checks i).all (· c) =
      (checkInsert (requests i) c).isOk := by
    rw [checkInsert_isOk, writeCalls]
    cases hnew : (requests i).isNew <;> simp [hnew]
  rw [callAtOnce, hall, writeOutcome]
  cases hcheck : checkInsert (requests i) c with
  | ok u =>
      rw [writeToCollection_run hcheck]
      rfl
  | error e =>
      rw [writeToCollection_refused hcheck]
      rfl

theorem serial_writeCalls (c : Collection) (order : List ι) :
    serial (writeCalls requests) c order = sequentialWrites requests c order := by
  induction order generalizing c with
  | nil => rfl
  | cons i order ih => simp only [serial, sequentialWrites, callAtOnce_writeCalls, ih]

end Serial

/-! ## Current checks -/

/-- No stored document has the version of the new one. -/
def VersionFree (request : WriteRequest) (c : Collection) : Prop :=
  ∀ version, lookup "version" request.userDocument = some (.string version) →
    version ≠ "" → ¬ HasVersion c version

theorem checkDuplicate_of_versionFree
    {env : Environment} {arg : Value} {request : WriteRequest} {c : Collection}
    (hc : VersionsListed c) (hrequest : writeRequest env arg = .ok request)
    (hfree : VersionFree request c) :
    checkDuplicate request c = .ok () := by
  obtain ⟨-, -, -, record, hrecord, -⟩ := writeRequest_eq_ok hrequest
  obtain ⟨version, hversion | ⟨habsent, -⟩, -⟩ := overlay_version hrecord
  · by_cases hne : version = ""
    · have htext : childText "version" (.object request.userDocument) = .ok version :=
        childText_of_lookup (by decide) hversion
      subst hne
      simp [checkDuplicate, duplicateFilter, htext, duplicateEntity_of_overlay hrecord,
        findDocumentIDs, matchCriterion, runMatchingFunction, matchVersion, matchTable,
        confirm, bind, Except.bind]
    · exact (checkDuplicate_iff hc hrequest hversion hne).2 (hfree version hversion hne)
  · simp [checkDuplicate, duplicateFilter, childText_of_absent habsent, bind, Except.bind]

theorem writeRequest_version
    {env : Environment} {arg : Value} {request : WriteRequest} {version : String}
    (hrequest : writeRequest env arg = .ok request)
    (hversion : lookup "version" request.userDocument = some (.string version))
    (hne : version ≠ "") :
    lookup "version" request.document = some (.string version) := by
  obtain ⟨-, -, -, record, hrecord, hdocument⟩ := writeRequest_eq_ok hrequest
  obtain ⟨version', hversion', hrecorded⟩ := overlay_version hrecord
  rw [hdocument, lookup_recordToWrite (by decide), hrecorded]
  rcases hversion' with hversion' | ⟨habsent, -⟩
  · rw [hversion, Option.some.injEq, Value.string.injEq] at hversion'
    rw [← hversion', if_neg hne]
  · simp [habsent] at hversion

/-! ## Runs of threads -/

/-- A generated id is that of no stored document and of no other write. -/
def GeneratedDistinct (c : Collection) (requests : ι → WriteRequest) : Prop :=
  ∀ i, (requests i).isNew = true →
    c.stored (requests i).oid = none ∧ ∀ j, j ≠ i → (requests j).oid ≠ (requests i).oid

/-- Two inserts with the same version. -/
def SameVersion (requests : ι → WriteRequest) (i j : ι) : Prop :=
  (requests i).isNew = true ∧ (requests j).isNew = true ∧
    ∃ version, version ≠ "" ∧
      lookup "version" (requests i).userDocument = some (.string version) ∧
      lookup "version" (requests j).userDocument = some (.string version)

/-- Two inserts with the same version and the same first entity. -/
def SameInsert (requests : ι → WriteRequest) (i j : ι) : Prop :=
  SameVersion requests i j ∧ ∃ entity,
    firstEntity (requests i).userDocument = some entity ∧
      firstEntity (requests j).userDocument = some entity

/-- What holds of the pool at every stage. -/
structure Consistent
    (c : Collection) (requests : ι → WriteRequest) (pool : Pool Collection ι) : Prop where
  suffixes : Suffixes (writeCalls requests) pool
  serialized : Serialized (writeCalls requests) c pool
  versions : VersionsListed pool.shared
  ids : ∀ oid, pool.shared.stored oid ≠ none →
    c.stored oid ≠ none ∨ ∃ j, pool.phase j = .finished true ∧ (requests j).oid = oid
  inserted : ∀ i, (requests i).isNew = true → pool.phase i = .finished true →
    pool.shared.stored (requests i).oid = some (requests i).document
  unique : ∀ i j, i ≠ j → SameVersion requests i j →
    ¬ (pool.phase i = .finished true ∧ pool.phase j = .finished true)

theorem consistent_start
    {c : Collection} (hc : VersionsListed c) :
    Consistent c requests (Pool.start (writeCalls requests) c) where
  suffixes := suffixes_start c
  serialized := serialized_start c
  versions := hc
  ids := fun _ hstored => Or.inl hstored
  inserted := by simp [Pool.start]
  unique := by simp [Pool.start]

section Runs

variable {requests} [DecidableEq ι] {c : Collection} {pool : Pool Collection ι} {i : ι}
  {calls : ι → Environment × Value}

/-- A call that fails a check or passes one changes no document. -/
theorem consistent_check
    (hpool : Consistent c requests pool) {check : Collection → Bool}
    {rest : List (Collection → Bool)} (hphase : pool.phase i = .pending (check :: rest)) :
    Consistent c requests (pool.step (writeCalls requests) i) := by
  have hsuffixes := suffixes_step hpool.suffixes i
  have hserialized := serialized_step hpool.serialized hpool.suffixes (i := i)
    (by simp [hphase])
  rw [step_check hphase] at hsuffixes hserialized ⊢
  have hfinished : ∀ j, Function.update pool.phase i
      (if check pool.shared then .pending rest else .finished false) j = .finished true →
      pool.phase j = .finished true := by
    intro j hj
    by_cases hji : j = i
    · subst hji
      rw [Function.update_self] at hj
      split at hj <;> simp at hj
    · rwa [Function.update_of_ne hji] at hj
  have hkept : ∀ j, pool.phase j = .finished true → Function.update pool.phase i
      (if check pool.shared then .pending rest else .finished false) j = .finished true := by
    intro j hj
    have hji : j ≠ i := by
      rintro rfl
      simp [hphase] at hj
    rwa [Function.update_of_ne hji]
  exact
    { suffixes := hsuffixes
      serialized := hserialized
      versions := hpool.versions
      ids := fun oid hstored => (hpool.ids oid hstored).imp_right
        fun ⟨j, hj, hoid⟩ => ⟨j, hkept j hj, hoid⟩
      inserted := fun j hnew hj => hpool.inserted j hnew (hfinished j hj)
      unique := fun j k hjk hsame h =>
        hpool.unique j k hjk hsame ⟨hfinished j h.1, hfinished k h.2⟩ }

/-- The document of a generated id is not there before its call acts. -/
theorem Consistent.absent
    (hpool : Consistent c requests pool) (hdistinct : GeneratedDistinct c requests)
    (hnew : (requests i).isNew = true) (hphase : pool.phase i = .pending []) :
    pool.shared.stored (requests i).oid = none := by
  by_contra hstored
  rcases hpool.ids _ hstored with hold | ⟨j, hj, hoid⟩
  · exact hold (hdistinct i hnew).1
  · by_cases hji : j = i
    · subst hji
      simp [hphase] at hj
    · exact (hdistinct i hnew).2 j hji hoid

/-- A call that acts while no stored document has its version keeps the pool
consistent. -/
theorem consistent_act
    (hcalls : ∀ i, writeRequest (calls i).1 (calls i).2 = .ok (requests i))
    (hpool : Consistent c requests pool) (hdistinct : GeneratedDistinct c requests)
    (hphase : pool.phase i = .pending [])
    (hfree : (requests i).isNew = true → VersionFree (requests i) pool.shared) :
    Consistent c requests (pool.step (writeCalls requests) i) := by
  have habsent := hpool.absent hdistinct (i := i)
  have hpasses : Passes (writeCalls requests) i pool.shared := by
    intro check hcheck
    simp only [writeCalls] at hcheck
    split at hcheck
    · rename_i hnew
      have hduplicate :=
        checkDuplicate_of_versionFree hpool.versions (hcalls i) (hfree hnew)
      simp only [List.mem_cons, List.not_mem_nil, or_false] at hcheck
      rcases hcheck with rfl | rfl
      · simp [habsent hnew hphase]
      · simp [hduplicate, Except.isOk, Except.toBool]
    · simp at hcheck
  have hsuffixes := suffixes_step hpool.suffixes i
  have hserialized := serialized_step hpool.serialized hpool.suffixes fun _ => hpasses
  rw [step_act hphase] at hsuffixes hserialized ⊢
  have hstored : ((writeCalls requests).act i pool.shared).stored =
      Function.update pool.shared.stored (requests i).oid (some (requests i).document) :=
    stored_replaced pool.shared (requests i)
  have hfinished : ∀ j, j ≠ i → (Function.update pool.phase i (.finished true) j =
      .finished true ↔ pool.phase j = .finished true) := by
    intro j hji
    rw [Function.update_of_ne hji]
  -- A finished insert with this version would have its document stored.
  have hother : ∀ j, j ≠ i → SameVersion requests i j → pool.phase j ≠ .finished true := by
    rintro j - ⟨hnewi, hnewj, version, hne, hversioni, hversionj⟩ hj
    refine hfree hnewi version hversioni hne ⟨_, _, hpool.inserted j hnewj hj, ?_⟩
    exact writeRequest_version (hcalls j) hversionj hne
  exact
    { suffixes := hsuffixes
      serialized := hserialized
      versions := versionsListed_replaced hpool.versions (fun hnew => habsent hnew hphase)
        (writeRequest_versioned (hcalls i))
      ids := by
        intro oid hoid
        rw [hstored] at hoid
        by_cases hi : oid = (requests i).oid
        · exact Or.inr ⟨i, by simp, hi.symm⟩
        · rw [Function.update_of_ne hi] at hoid
          apply (hpool.ids oid hoid).imp_right
          rintro ⟨j, hj, hjoid⟩
          refine ⟨j, ?_, hjoid⟩
          have hji : j ≠ i := by
            rintro rfl
            exact hi hjoid.symm
          exact (hfinished j hji).2 hj
      inserted := by
        intro j hnew hj
        rw [hstored]
        by_cases hji : j = i
        · subst hji
          simp
        · rw [Function.update_of_ne fun h => (hdistinct j hnew).2 i (Ne.symm hji) h.symm]
          exact hpool.inserted j hnew ((hfinished j hji).1 hj)
      unique := by
        rintro j k hjk hsame ⟨hj, hk⟩
        by_cases hji : j = i
        · subst hji
          exact hother k (Ne.symm hjk) hsame ((hfinished k (Ne.symm hjk)).1 hk)
        · by_cases hki : k = i
          · subst hki
            obtain ⟨hnewj, hnewk, version, hne, hversionj, hversionk⟩ := hsame
            exact hother j hji ⟨hnewk, hnewj, version, hne, hversionk, hversionj⟩
              ((hfinished j hji).1 hj)
          · exact hpool.unique j k hjk hsame
              ⟨(hfinished j hji).1 hj, (hfinished k hki).1 hk⟩ }

/-- An insert writes its document while no stored document has its version. -/
def WritesCurrent (requests : ι → WriteRequest) (p : Process ι) (i : ι) : Prop :=
  p.phase i = .updating p.index → (requests i).isNew = true →
    VersionFree (requests i) ⟨p.documents, p.index⟩

/-- What the pool of the threads is in every state of a run. -/
theorem run_consistent
    (hc : VersionsListed c)
    (hcalls : ∀ i, writeRequest (calls i).1 (calls i).2 = .ok (requests i))
    (hdistinct : GeneratedDistinct c requests) {schedule : List ι}
    (hmeets : Meets (Process.step requests) (WritesCurrent requests) (Process.start c) schedule) :
    Locked (run (Process.step requests) (Process.start c) schedule) ∧
      Consistent c requests
        ((run (Process.step requests) (Process.start c) schedule).pool requests) := by
  refine run_invariant (fun p => Locked p ∧ Consistent c requests (p.pool requests)) ?_
    ⟨locked_start c, consistent_start requests hc⟩ hmeets
  rintro p i ⟨hlocked, hpool⟩ hcurrent
  have hrefines : Refines requests p i := step_refines hlocked i
  obtain ⟨hlocked', hsame | ⟨hacts, hstep⟩⟩ := hrefines
  · exact ⟨hlocked', hsame ▸ hpool⟩
  · refine ⟨hlocked', ?_⟩
    rw [hstep]
    cases hphase : (p.pool requests).phase i with
    | finished b =>
        rw [step_finished hphase]
        exact hpool
    | pending rest =>
        cases rest with
        | nil => exact consistent_act hcalls hpool hdistinct hphase (hcurrent (hacts hphase))
        | cons check rest => exact consistent_check hpool hphase

end Runs

/-- The threads have ended as the same writes do in some order, one at a time, with
the same outcomes, and of two inserts with one version and entity at most one has
succeeded. -/
structure SerializedWrites
    (c : Collection) (requests : ι → WriteRequest) (p : Process ι) : Prop where
  order : ∃ outcomes : List (ι × Bool),
    (outcomes.map Prod.fst).Nodup ∧
      (∀ i b, (i, b) ∈ outcomes ↔ p.phase i = .finished b) ∧
      sequentialWrites requests c (outcomes.map Prod.fst) = (⟨p.documents, p.index⟩, outcomes)
  unique : ∀ i j, i ≠ j → SameInsert requests i j →
    ¬ (p.phase i = .finished true ∧ p.phase j = .finished true)

/-- The writes of any number of threads to a collection that was written before are
serialized, in every interleaving in which each insert writes its document while no
stored document has its version. -/
theorem threads_serialized
    [DecidableEq ι] {history : List (Environment × Value)} {name : String}
    {calls : ι → Environment × Value}
    (hcalls : ∀ i, writeRequest (calls i).1 (calls i).2 = .ok (requests i) ∧
      (requests i).collection = name)
    (hdistinct : GeneratedDistinct (collectionAt name (writes [] history)) requests)
    {schedule : List ι}
    (hmeets : Meets (Process.step requests) (WritesCurrent requests)
      (Process.start (collectionAt name (writes [] history))) schedule)
    (hfinished : ∀ i, ∃ b, (run (Process.step requests)
      (Process.start (collectionAt name (writes [] history))) schedule).phase i = .finished b) :
    SerializedWrites (collectionAt name (writes [] history)) requests
      (run (Process.step requests)
        (Process.start (collectionAt name (writes [] history))) schedule) := by
  obtain ⟨hlocked, hpool⟩ :=
    run_consistent (versionsListed_writes history name) (fun i => (hcalls i).1) hdistinct
      hmeets
  generalize collectionAt name (writes [] history) = c at *
  generalize run (Process.step requests) (Process.start c) schedule = p at *
  have hphase : ∀ i b, (p.pool requests).phase i = .finished b ↔ p.phase i = .finished b := by
    intro i b
    obtain ⟨b', hb'⟩ := hfinished i
    simp [Process.pool, hb', callPhase]
  have hfree : p.owner = none := by
    cases howner : p.owner with
    | none => rfl
    | some i =>
        obtain ⟨b, hb⟩ := hfinished i
        have := (hlocked.owner_iff i).1 howner
        simp [hb, ThreadPhase.inScope] at this
  obtain ⟨outcomes, hnodup, hended, hserial⟩ := hpool.serialized
  refine ⟨⟨outcomes, hnodup, fun i b => (hended i b).trans (hphase i b), ?_⟩,
    fun i j hij hsame h => ?_⟩
  · rw [← serial_writeCalls, hserial, Process.pool, currentIndex_of_free hfree]
  · exact hpool.unique i j hij hsame.1 ⟨(hphase i true).2 h.1, (hphase j true).2 h.2⟩

/-! ## Two threads -/

/-- Two inserts, the second one with a version of its own choice. -/
def twoInserts (version : String) (i : Fin 2) : Environment × Value :=
  if i = 0 then (exampleEnvironment, examplePayload "v1" "e1" [])
  else (secondEnvironment, examplePayload version "e1" [])

def twoRequests (version : String) (i : Fin 2) : WriteRequest :=
  if i = 0 then exampleRequest exampleEnvironment "v1" "e1" []
  else exampleRequest secondEnvironment version "e1" []

/-- Both threads pass their checks before either writes. -/
def bothChecked : List (Fin 2) :=
  [0, 1, 0, 0, 1, 1, 0, 0, 0, 1, 1, 1]

theorem twoRequests_prepared (i : Fin 2) :
    writeRequest (twoInserts "v2" i).1 (twoInserts "v2" i).2 = .ok (twoRequests "v2" i) ∧
      (twoRequests "v2" i).collection = "run" := by
  revert i
  decide +kernel

/-- No document of the files has the version of the document that is about to be
written: a sufficient condition that can be evaluated. -/
def FilesCurrent (requests : ι → WriteRequest) (p : Process ι) (i : ι) : Prop :=
  p.phase i = .updating p.index → ∀ file ∈ p.documents,
    lookup "version" file.2 ≠ lookup "version" (requests i).userDocument

instance (p : Process ι) (i : ι) : Decidable (FilesCurrent requests p i) :=
  inferInstanceAs (Decidable (_ → _))

theorem FilesCurrent.writesCurrent
    {p : Process ι} {i : ι} (hfiles : FilesCurrent requests p i) :
    WritesCurrent requests p i := by
  rintro hphase - version hversion - ⟨oid, document, hstored, hdocument⟩
  exact hfiles hphase (oid, document) (mem_of_lookup hstored) (hdocument.trans hversion.symm)

theorem threads_serialized_two :
    SerializedWrites (collectionAt "run" (writes [] [])) (twoRequests "v2")
      (run (Process.step (twoRequests "v2"))
        (Process.start (collectionAt "run" (writes [] []))) bothChecked) := by
  have hmeets : Meets (Process.step (twoRequests "v2")) (FilesCurrent (twoRequests "v2"))
      (Process.start (collectionAt "run" (writes [] []))) bothChecked := by
    decide +kernel
  have hfinished : ∀ i : Fin 2, (run (Process.step (twoRequests "v2"))
      (Process.start (collectionAt "run" (writes [] []))) bothChecked).phase i =
        .finished true := by
    decide +kernel
  have hdistinct : GeneratedDistinct (collectionAt "run" (writes [] [])) (twoRequests "v2") := by
    intro i _
    revert i
    decide +kernel
  exact threads_serialized (twoRequests "v2") twoRequests_prepared hdistinct
    (hmeets.mono fun _ _ h => h.writesCurrent) fun i => ⟨true, hfinished i⟩

/-- Two inserts with one version and one entity both succeed. -/
theorem bothChecked_not_serialized :
    (∀ i : Fin 2, (run (Process.step (twoRequests "v1"))
        (Process.start (collectionAt "run" (writes [] []))) bothChecked).phase i =
          .finished true) ∧
      ¬ SerializedWrites (collectionAt "run" (writes [] [])) (twoRequests "v1")
        (run (Process.step (twoRequests "v1"))
          (Process.start (collectionAt "run" (writes [] []))) bothChecked) := by
  have hfinished : ∀ i : Fin 2, (run (Process.step (twoRequests "v1"))
      (Process.start (collectionAt "run" (writes [] []))) bothChecked).phase i =
        .finished true := by
    decide +kernel
  have hsame : SameInsert (twoRequests "v1") 0 1 :=
    ⟨⟨by decide +kernel, by decide +kernel, "v1", by decide, by decide +kernel,
      by decide +kernel⟩, "e1", by decide +kernel, by decide +kernel⟩
  exact ⟨hfinished, fun hserialized =>
    hserialized.unique 0 1 (by decide) hsame ⟨hfinished 0, hfinished 1⟩⟩

end ArtdaqDatabase
