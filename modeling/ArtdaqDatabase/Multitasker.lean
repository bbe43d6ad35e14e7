import ArtdaqDatabase.GuardedRun
import ArtdaqDatabase.JsonValue
import Mathlib.Algebra.BigOperators.Fin
import Mathlib.Algebra.Order.BigOperators.Group.Multiset

/-!
# The task pool

`Multitasker` hands tasks to worker threads through a queue and collects their
results in a list, both under one mutex.  The steps are the critical sections of
the owner and of the workers, and the execution of a task between two of them.  A
notification follows its critical section at once, and belongs to its step; a
worker that waits on the condition variable may also wake up without one.

A task is named by the number of its acceptance.  The names in the result list, and
the history, are no part of the source; they say what happened.
-/

namespace ArtdaqDatabase

open GuardedRun

/-- `result_t`. -/
abbrev TaskResult := Bool × String

/-- How a task ends. -/
inductive Outcome where
  | returned (result : TaskResult)
  | threw (what : String)
  | threwUnknown
  deriving DecidableEq

/-- The result that the worker pushes. -/
def Outcome.result : Outcome → TaskResult
  | .returned result => result
  | .threw what => (false, what)
  | .threwUnknown => (false, "DB operation threw an unknown exception.")

/-- Where a worker is in `workerThread`. -/
inductive WorkerPhase where
  | asleep
  | awake
  | running (task : ℕ)
  | pushing (task : ℕ) (result : TaskResult)
  | exited
  deriving DecidableEq

inductive Event where
  | accepted (task : ℕ)
  | executed (task : ℕ) (outcome : Outcome)
  | pushed (task : ℕ) (result : TaskResult)
  | handedOut (results : List (ℕ × TaskResult))
  deriving DecidableEq

/-- The pool with its `n` workers; the last event of the history comes first. -/
structure Multitasker (n : ℕ) where
  tasks : List ℕ
  results : List (ℕ × TaskResult)
  totalTasks : ℕ
  shouldStop : Bool
  phase : Fin n → WorkerPhase
  history : List Event

/-- The number of workers that the constructor starts. -/
def workerCount (numThreads hardwareConcurrency : ℕ) : ℕ :=
  min numThreads (hardwareConcurrency / 2)

/-! ## What happened -/

namespace Event

/-- The accepted tasks, the last one first. -/
def acceptedTasks : List Event → List ℕ
  | [] => []
  | .accepted task :: rest => task :: acceptedTasks rest
  | _ :: rest => acceptedTasks rest

/-- The executed tasks, the last one first. -/
def executedTasks : List Event → List ℕ
  | [] => []
  | .executed task _ :: rest => task :: executedTasks rest
  | _ :: rest => executedTasks rest

/-- The pushed results in their order. -/
def pushedResults : List Event → List (ℕ × TaskResult)
  | [] => []
  | .pushed task result :: rest => pushedResults rest ++ [(task, result)]
  | _ :: rest => pushedResults rest

/-- The results that `getResults` returned, in their order. -/
def handedResults : List Event → List (ℕ × TaskResult)
  | [] => []
  | .handedOut results :: rest => handedResults rest ++ results
  | _ :: rest => handedResults rest

/-- The number of tasks accepted since the last `getResults`. -/
def acceptedSince : List Event → ℕ
  | [] => 0
  | .accepted _ :: rest => acceptedSince rest + 1
  | .handedOut _ :: _ => 0
  | _ :: rest => acceptedSince rest

end Event

open Event

namespace Multitasker

variable {n : ℕ}

/-! ## The owner -/

def start (n : ℕ) : Multitasker n :=
  ⟨[], [], 0, false, fun _ => .awake, []⟩

def wakeUp : WorkerPhase → WorkerPhase
  | .asleep => .awake
  | phase => phase

/-- `notify_one` wakes a sleeping worker, if there is one. -/
def MayWake (phase : Fin n → WorkerPhase) : Option (Fin n) → Prop
  | some i => phase i = .asleep
  | none => ∀ i, phase i ≠ .asleep

instance (phase : Fin n → WorkerPhase) : (woken : Option (Fin n)) → Decidable (MayWake phase woken)
  | some i => inferInstanceAs (Decidable (phase i = .asleep))
  | none => inferInstanceAs (Decidable (∀ i, phase i ≠ .asleep))

def notifyOne (woken : Option (Fin n)) (phase : Fin n → WorkerPhase) : Fin n → WorkerPhase :=
  match woken with
  | some i => Function.update phase i .awake
  | none => phase

def notifyAll (phase : Fin n → WorkerPhase) : Fin n → WorkerPhase :=
  fun i => wakeUp (phase i)

def addTask (woken : Option (Fin n)) (s : Multitasker n) : Except Failure (Multitasker n) :=
  if s.shouldStop then
    .error (.runtimeError
      "Submitting more tasks is not allowed after the stop request has been received.")
  else
    .ok
      { s with
        tasks := s.tasks ++ [(acceptedTasks s.history).length]
        totalTasks := s.totalTasks + 1
        phase := notifyOne woken s.phase
        history := .accepted (acceptedTasks s.history).length :: s.history }

def isBusy (s : Multitasker n) : Bool :=
  !s.tasks.isEmpty || decide (s.results.length < s.totalTasks)

def getResults (s : Multitasker n) :
    Except Failure (List (ℕ × TaskResult) × Multitasker n) :=
  if s.isBusy then
    .error (.runtimeError
      "Not all tasks were completed yet, call waitForResults() before calling getResults().")
  else
    .ok (s.results,
      { s with results := [], totalTasks := 0, history := .handedOut s.results :: s.history })

def signalStop (s : Multitasker n) : Multitasker n :=
  { s with shouldStop := true, phase := notifyAll s.phase }

/-- `waitForResults` leaves its loop in this state. -/
def WaitOver (s : Multitasker n) : Prop :=
  ¬ (0 < s.tasks.length ∨ s.results.length < s.totalTasks)

/-! ## The workers -/

/-- The next step of a worker in `workerThread`; the outcome is that of the task if
the step executes one. -/
def workerStep (i : Fin n) (outcome : Outcome) (s : Multitasker n) : Multitasker n :=
  match s.phase i with
  | .asleep => s
  | .awake =>
      if s.shouldStop && s.tasks.isEmpty then
        { s with phase := Function.update s.phase i .exited }
      else
        match s.tasks with
        | [] => { s with phase := Function.update s.phase i .asleep }
        | task :: rest =>
            { s with tasks := rest, phase := Function.update s.phase i (.running task) }
  | .running task =>
      { s with
        phase := Function.update s.phase i (.pushing task outcome.result)
        history := .executed task outcome :: s.history }
  | .pushing task result =>
      { s with
        results := s.results ++ [(task, result)]
        phase := notifyAll (Function.update s.phase i .awake)
        history := .pushed task result :: s.history }
  | .exited => s

/-! ## Runs -/

/-- The calls of the owner and the steps of the workers. -/
inductive Action (n : ℕ) where
  | addTask (woken : Option (Fin n))
  | signalStop
  | waitForResults
  | getResults
  | wakeUp (i : Fin n)
  | work (i : Fin n) (outcome : Outcome)

/-- A call that throws and a notification that cannot be leave the pool as it is. -/
def step (s : Multitasker n) : Action n → Multitasker n
  | .addTask woken =>
      if MayWake s.phase woken then (s.addTask woken).toOption.getD s else s
  | .signalStop => s.signalStop
  | .waitForResults => s
  | .getResults => (s.getResults.toOption.map Prod.snd).getD s
  | .wakeUp i => { s with phase := Function.update s.phase i (Multitasker.wakeUp (s.phase i)) }
  | .work i outcome => s.workerStep i outcome

/-- The pool after a run from its construction. -/
def after (actions : List (Action n)) : Multitasker n :=
  run step (start n) actions

/-! ## Where the tasks are -/

end Multitasker

namespace WorkerPhase

/-- The task that the worker has dequeued and not executed yet. -/
def unexecuted : WorkerPhase → Multiset ℕ
  | .running task => {task}
  | _ => 0

/-- The task whose result the worker has not pushed yet. -/
def unpushed : WorkerPhase → Multiset ℕ
  | .pushing task _ => {task}
  | _ => 0

@[simp]
theorem unexecuted_wakeUp (phase : WorkerPhase) :
    (Multitasker.wakeUp phase).unexecuted = phase.unexecuted := by
  cases phase <;> rfl

@[simp]
theorem unpushed_wakeUp (phase : WorkerPhase) :
    (Multitasker.wakeUp phase).unpushed = phase.unpushed := by
  cases phase <;> rfl

end WorkerPhase

namespace Multitasker

variable {n : ℕ}

/-- What all workers together hold, when one of them moves on. -/
theorem sum_update_phase
    (held : WorkerPhase → Multiset ℕ) (phase : Fin n → WorkerPhase) (i : Fin n)
    (next : WorkerPhase) :
    ∑ j, held (Function.update phase i next j) + held (phase i) =
      ∑ j, held (phase j) + held next := by
  have hrest : ∑ j ∈ Finset.univ.erase i, held (Function.update phase i next j) =
      ∑ j ∈ Finset.univ.erase i, held (phase j) := by
    refine Finset.sum_congr rfl fun j hj => ?_
    rw [Function.update_of_ne (Finset.ne_of_mem_erase hj)]
  have hbefore := Finset.sum_erase_add Finset.univ (fun j => held (phase j)) (Finset.mem_univ i)
  have hafter := Finset.sum_erase_add Finset.univ
    (fun j => held (Function.update phase i next j)) (Finset.mem_univ i)
  simp only [Function.update_self] at hafter
  rw [← hbefore, ← hafter, hrest, add_right_comm]

/-- A worker that holds nothing before and after leaves the sum as it is. -/
theorem sum_update_idle
    {held : WorkerPhase → Multiset ℕ} {phase : Fin n → WorkerPhase} {i : Fin n}
    {next : WorkerPhase} (hbefore : held (phase i) = 0) (hafter : held next = 0) :
    ∑ j, held (Function.update phase i next j) = ∑ j, held (phase j) := by
  have hsum := sum_update_phase held phase i next
  rwa [hbefore, hafter, add_zero, add_zero] at hsum

/-- A phase other than the one that a worker moved to was there before. -/
theorem phase_of_update
    {phase : Fin n → WorkerPhase} {i j : Fin n} {next found : WorkerPhase}
    (hne : next ≠ found) (hfound : Function.update phase i next j = found) :
    phase j = found := by
  by_cases hij : j = i
  · subst hij
    rw [Function.update_self] at hfound
    exact absurd hfound hne
  · rwa [Function.update_of_ne hij] at hfound

/-- Every accepted task is queued, held by a worker, or executed; every executed one
has its result with a worker, in the list, or handed out. -/
structure Accounted (s : Multitasker n) : Prop where
  accepted : (acceptedTasks s.history : Multiset ℕ) =
    executedTasks s.history + ∑ i, (s.phase i).unexecuted + s.tasks
  executed : (executedTasks s.history : Multiset ℕ) =
    (pushedResults s.history).map Prod.fst + ∑ i, (s.phase i).unpushed
  pushed : pushedResults s.history = handedResults s.history ++ s.results
  fresh : ∀ task ∈ acceptedTasks s.history, task < (acceptedTasks s.history).length
  nodup : (acceptedTasks s.history).Nodup
  since : s.totalTasks = acceptedSince s.history
  count : (acceptedTasks s.history).length = (handedResults s.history).length + s.totalTasks
  pushing : ∀ i task result, s.phase i = .pushing task result →
    ∃ outcome, .executed task outcome ∈ s.history ∧ result = outcome.result
  outcome : ∀ task result, (task, result) ∈ pushedResults s.history →
    ∃ outcome, .executed task outcome ∈ s.history ∧ result = outcome.result
  exited : ∀ i, s.phase i = .exited → s.shouldStop = true ∧ s.tasks = []

theorem accounted_start (n : ℕ) : Accounted (start n) where
  accepted := by simp [start, acceptedTasks, executedTasks, WorkerPhase.unexecuted]
  executed := by simp [start, executedTasks, pushedResults, WorkerPhase.unpushed]
  pushed := rfl
  fresh := by simp [start, acceptedTasks]
  nodup := by simp [start, acceptedTasks]
  since := rfl
  count := rfl
  pushing := by simp [start]
  outcome := by simp [start, pushedResults]
  exited := by simp [start]

/-- A change of phases in which no worker takes or gives a task, or exits. -/
theorem Accounted.rephase
    {s : Multitasker n} (h : Accounted s) {phase : Fin n → WorkerPhase} {stop : Bool}
    (hunexecuted : ∑ i, (phase i).unexecuted = ∑ i, (s.phase i).unexecuted)
    (hunpushed : ∑ i, (phase i).unpushed = ∑ i, (s.phase i).unpushed)
    (hpushing : ∀ i task result, phase i = .pushing task result →
      s.phase i = .pushing task result)
    (hexited : ∀ i, phase i = .exited → stop = true ∧ s.tasks = []) :
    Accounted { s with phase := phase, shouldStop := stop } where
  accepted := by rw [hunexecuted]; exact h.accepted
  executed := by rw [hunpushed]; exact h.executed
  pushed := h.pushed
  fresh := h.fresh
  nodup := h.nodup
  since := h.since
  count := h.count
  pushing i task result hphase := h.pushing i task result (hpushing i task result hphase)
  outcome := h.outcome
  exited := hexited

/-! ## One step -/

theorem sum_notifyOne
    {held : WorkerPhase → Multiset ℕ} (hasleep : held .asleep = 0) (hawake : held .awake = 0)
    {phase : Fin n → WorkerPhase} {woken : Option (Fin n)} (hwoken : MayWake phase woken) :
    ∑ i, held (notifyOne woken phase i) = ∑ i, held (phase i) := by
  cases woken with
  | none => rfl
  | some i =>
      have hphase : phase i = .asleep := hwoken
      exact sum_update_idle (by rw [hphase, hasleep]) hawake

/-- A worker that is notified wakes up, and the others are where they were. -/
theorem notifyOne_apply
    (phase : Fin n → WorkerPhase) (woken : Option (Fin n)) (i : Fin n) :
    notifyOne woken phase i = .awake ∨ notifyOne woken phase i = phase i := by
  cases woken with
  | none => exact Or.inr rfl
  | some j =>
      by_cases hij : i = j
      · subst hij
        exact Or.inl (Function.update_self ..)
      · exact Or.inr (Function.update_of_ne hij ..)

theorem accounted_addTask
    {s s' : Multitasker n} (h : Accounted s) {woken : Option (Fin n)}
    (hwoken : MayWake s.phase woken) (hadd : s.addTask woken = .ok s') :
    Accounted s' := by
  unfold addTask at hadd
  split at hadd
  · cases hadd
  · rename_i hrunning
    rw [Except.ok.injEq] at hadd
    subst hadd
    have hunexecuted := @sum_notifyOne n WorkerPhase.unexecuted rfl rfl s.phase woken hwoken
    have hunpushed := @sum_notifyOne n WorkerPhase.unpushed rfl rfl s.phase woken hwoken
    have hkept : ∀ i phase, phase ≠ .awake → notifyOne woken s.phase i = phase →
        s.phase i = phase := by
      intro i phase hne hphase
      rcases notifyOne_apply s.phase woken i with hawake | hsame
      · exact absurd (hphase.symm.trans hawake) hne
      · rw [← hsame, hphase]
    constructor
    · rw [hunexecuted]
      simp only [acceptedTasks, executedTasks]
      rw [← Multiset.cons_coe, h.accepted, ← Multiset.coe_add, Multiset.coe_singleton, ← add_assoc,
        ← Multiset.singleton_add, add_comm]
    · rw [hunpushed]
      exact h.executed
    · exact h.pushed
    · intro task htask
      simp only [acceptedTasks, List.mem_cons, List.length_cons] at htask ⊢
      rcases htask with rfl | htask
      · exact Nat.lt_succ_self _
      · exact Nat.lt_succ_of_lt (h.fresh task htask)
    · simp only [acceptedTasks, List.nodup_cons]
      exact ⟨fun hmem => lt_irrefl _ (h.fresh _ hmem), h.nodup⟩
    · simp only [acceptedSince]
      rw [h.since]
    · simp only [acceptedTasks, handedResults, List.length_cons]
      rw [h.count]
      rfl
    · intro i task result hphase
      obtain ⟨outcome, hevent, hresult⟩ :=
        h.pushing i task result (hkept i _ (by simp) hphase)
      exact ⟨outcome, List.mem_cons_of_mem _ hevent, hresult⟩
    · intro task result hmem
      obtain ⟨outcome, hevent, hresult⟩ := h.outcome task result hmem
      exact ⟨outcome, List.mem_cons_of_mem _ hevent, hresult⟩
    · intro i hphase
      exact absurd (h.exited i (hkept i _ (by simp) hphase)).1 hrunning

theorem accounted_signalStop {s : Multitasker n} (h : Accounted s) : Accounted s.signalStop := by
  refine h.rephase (by simp [notifyAll]) (by simp [notifyAll]) (fun i task result hphase => ?_)
    (fun i hphase => ?_)
  · cases hbefore : s.phase i <;> simp_all [notifyAll, Multitasker.wakeUp]
  · cases hbefore : s.phase i <;> simp_all [notifyAll, Multitasker.wakeUp]
    exact (h.exited i hbefore).2

/-- Where nothing is pending, nothing is with a worker. -/
theorem Accounted.load {s : Multitasker n} (h : Accounted s) :
    s.totalTasks = s.results.length + (∑ i, (s.phase i).unpushed).card +
      (∑ i, (s.phase i).unexecuted).card + s.tasks.length := by
  have haccepted := congrArg Multiset.card h.accepted
  have hexecuted := congrArg Multiset.card h.executed
  have hpushed := congrArg List.length h.pushed
  have hcount := h.count
  simp only [Multiset.coe_card, Multiset.card_add, List.length_map, List.length_append] at *
  omega

theorem isBusy_eq_false {s : Multitasker n} :
    s.isBusy = false ↔ s.tasks = [] ∧ s.totalTasks ≤ s.results.length := by
  simp [isBusy]

/-- In a pool that is not busy every task is executed and its result is in the list or
handed out. -/
theorem Accounted.idle
    {s : Multitasker n} (h : Accounted s) (hidle : s.isBusy = false) :
    s.tasks = [] ∧ s.results.length = s.totalTasks ∧
      (acceptedTasks s.history : Multiset ℕ) = executedTasks s.history := by
  obtain ⟨htasks, hresults⟩ := isBusy_eq_false.1 hidle
  have hload := h.load
  rw [htasks, List.length_nil] at hload
  have hnone : ∑ i, (s.phase i).unexecuted = 0 := by
    rw [← Multiset.card_eq_zero]
    omega
  have haccepted := h.accepted
  rw [hnone, htasks] at haccepted
  refine ⟨htasks, by omega, ?_⟩
  simpa using haccepted

theorem accounted_getResults
    {s s' : Multitasker n} {results : List (ℕ × TaskResult)} (h : Accounted s)
    (hget : s.getResults = .ok (results, s')) :
    Accounted s' := by
  unfold getResults at hget
  split at hget
  · cases hget
  · rename_i hidle
    rw [Except.ok.injEq, Prod.mk.injEq] at hget
    obtain ⟨rfl, rfl⟩ := hget
    rw [Bool.not_eq_true] at hidle
    have hlength := (h.idle hidle).2.1
    constructor
    · exact h.accepted
    · exact h.executed
    · simp only [pushedResults, handedResults, List.append_nil]
      exact h.pushed
    · exact h.fresh
    · exact h.nodup
    · rfl
    · simp only [acceptedTasks, handedResults, List.length_append]
      rw [h.count, hlength]
      rfl
    · intro i task result hphase
      obtain ⟨outcome, hevent, hresult⟩ := h.pushing i task result hphase
      exact ⟨outcome, List.mem_cons_of_mem _ hevent, hresult⟩
    · intro task result hmem
      obtain ⟨outcome, hevent, hresult⟩ := h.outcome task result hmem
      exact ⟨outcome, List.mem_cons_of_mem _ hevent, hresult⟩
    · exact h.exited

/-- A worker that holds nothing goes to sleep, wakes up or exits. -/
theorem accounted_idleStep
    {s : Multitasker n} (h : Accounted s) {i : Fin n} {next : WorkerPhase}
    (hbefore : s.phase i = .awake ∨ s.phase i = .asleep)
    (hnext : next = .awake ∨ next = .asleep ∨
      next = .exited ∧ s.shouldStop = true ∧ s.tasks = []) :
    Accounted { s with phase := Function.update s.phase i next } := by
  have hempty : (s.phase i).unexecuted = 0 ∧ (s.phase i).unpushed = 0 := by
    rcases hbefore with hphase | hphase
    · exact ⟨by rw [hphase]; rfl, by rw [hphase]; rfl⟩
    · exact ⟨by rw [hphase]; rfl, by rw [hphase]; rfl⟩
  have hempty' : next.unexecuted = 0 ∧ next.unpushed = 0 := by
    rcases hnext with rfl | rfl | ⟨rfl, -⟩
    · exact ⟨rfl, rfl⟩
    · exact ⟨rfl, rfl⟩
    · exact ⟨rfl, rfl⟩
  refine h.rephase (sum_update_idle hempty.1 hempty'.1) (sum_update_idle hempty.2 hempty'.2)
    (fun j task result hphase => phase_of_update ?_ hphase) (fun j hphase => ?_)
  · rintro rfl
    simp at hnext
  · by_cases hexit : next = .exited
    · rw [hexit] at hnext
      simpa using hnext
    · exact h.exited j (phase_of_update hexit hphase)

theorem accounted_dequeue
    {s : Multitasker n} (h : Accounted s) {i : Fin n} (hphase : s.phase i = .awake)
    {task : ℕ} {rest : List ℕ} (htasks : s.tasks = task :: rest) :
    Accounted { s with tasks := rest, phase := Function.update s.phase i (.running task) } := by
  have hunexecuted := sum_update_phase WorkerPhase.unexecuted s.phase i (.running task)
  have hunpushed : ∑ j, (Function.update s.phase i (.running task) j).unpushed =
      ∑ j, (s.phase j).unpushed := sum_update_idle (by rw [hphase]; rfl) rfl
  have hheld : (s.phase i).unexecuted = 0 := by rw [hphase]; rfl
  rw [hheld, add_zero] at hunexecuted
  constructor
  · rw [hunexecuted, h.accepted, htasks, ← Multiset.cons_coe, ← Multiset.singleton_add]
    simp only [WorkerPhase.unexecuted, add_assoc]
  · rw [hunpushed]
    exact h.executed
  · exact h.pushed
  · exact h.fresh
  · exact h.nodup
  · exact h.since
  · exact h.count
  · exact fun j task' result hj => h.pushing j task' result (phase_of_update (by simp) hj)
  · exact h.outcome
  · intro j hj
    have hnone := (h.exited j (phase_of_update (by simp) hj)).2
    rw [htasks] at hnone
    cases hnone

theorem accounted_execute
    {s : Multitasker n} (h : Accounted s) {i : Fin n} {task : ℕ}
    (hphase : s.phase i = .running task) (outcome : Outcome) :
    Accounted
      { s with
        phase := Function.update s.phase i (.pushing task outcome.result)
        history := .executed task outcome :: s.history } := by
  have hunexecuted :
      ∑ j, (Function.update s.phase i (.pushing task outcome.result) j).unexecuted + {task} =
        ∑ j, (s.phase j).unexecuted := by
    have hsum := sum_update_phase WorkerPhase.unexecuted s.phase i (.pushing task outcome.result)
    rw [hphase] at hsum
    exact hsum.trans (add_zero _)
  have hunpushed :
      ∑ j, (Function.update s.phase i (.pushing task outcome.result) j).unpushed =
        ∑ j, (s.phase j).unpushed + {task} := by
    have hsum := sum_update_phase WorkerPhase.unpushed s.phase i (.pushing task outcome.result)
    rw [hphase] at hsum
    exact (add_zero _).symm.trans hsum
  constructor
  · simp only [acceptedTasks, executedTasks]
    rw [h.accepted, ← Multiset.cons_coe, ← Multiset.singleton_add, ← hunexecuted]
    abel
  · simp only [executedTasks, pushedResults]
    rw [hunpushed, ← Multiset.cons_coe, h.executed, ← Multiset.singleton_add]
    abel
  · exact h.pushed
  · exact h.fresh
  · exact h.nodup
  · exact h.since
  · exact h.count
  · intro j task' result hj
    by_cases hnew : WorkerPhase.pushing task outcome.result = .pushing task' result
    · rw [WorkerPhase.pushing.injEq] at hnew
      exact ⟨outcome, by rw [← hnew.1]; exact List.mem_cons_self, hnew.2.symm⟩
    · obtain ⟨outcome', hevent, hresult⟩ :=
        h.pushing j task' result (phase_of_update hnew hj)
      exact ⟨outcome', List.mem_cons_of_mem _ hevent, hresult⟩
  · intro task' result hmem
    obtain ⟨outcome', hevent, hresult⟩ := h.outcome task' result hmem
    exact ⟨outcome', List.mem_cons_of_mem _ hevent, hresult⟩
  · exact fun j hj => h.exited j (phase_of_update (by simp) hj)

theorem accounted_push
    {s : Multitasker n} (h : Accounted s) {i : Fin n} {task : ℕ} {result : TaskResult}
    (hphase : s.phase i = .pushing task result) :
    Accounted
      { s with
        results := s.results ++ [(task, result)]
        phase := notifyAll (Function.update s.phase i .awake)
        history := .pushed task result :: s.history } := by
  have hunexecuted :
      ∑ j, (Function.update s.phase i .awake j).unexecuted = ∑ j, (s.phase j).unexecuted :=
    sum_update_idle (by rw [hphase]; rfl) rfl
  have hunpushed :
      ∑ j, (Function.update s.phase i .awake j).unpushed + {task} = ∑ j, (s.phase j).unpushed := by
    have hsum := sum_update_phase WorkerPhase.unpushed s.phase i .awake
    rw [hphase] at hsum
    exact hsum.trans (add_zero _)
  have hkept : ∀ j phase, phase ≠ .awake →
      notifyAll (Function.update s.phase i .awake) j = phase → s.phase j = phase := by
    intro j phase hne hj
    unfold notifyAll Multitasker.wakeUp at hj
    split at hj
    · exact absurd hj.symm hne
    · exact phase_of_update (Ne.symm hne) hj
  constructor
  · simp only [acceptedTasks, executedTasks, notifyAll, WorkerPhase.unexecuted_wakeUp]
    rw [hunexecuted]
    exact h.accepted
  · simp only [executedTasks, pushedResults, notifyAll, WorkerPhase.unpushed_wakeUp,
      List.map_append, List.map_cons, List.map_nil]
    rw [h.executed, ← Multiset.coe_add, Multiset.coe_singleton, ← hunpushed]
    abel
  · simp only [pushedResults, handedResults]
    rw [h.pushed, List.append_assoc]
  · exact h.fresh
  · exact h.nodup
  · exact h.since
  · exact h.count
  · intro j task' result' hj
    obtain ⟨outcome, hevent, hresult⟩ := h.pushing j task' result' (hkept j _ (by simp) hj)
    exact ⟨outcome, List.mem_cons_of_mem _ hevent, hresult⟩
  · intro task' result' hmem
    simp only [pushedResults, List.mem_append, List.mem_singleton, Prod.mk.injEq] at hmem
    rcases hmem with hmem | ⟨rfl, rfl⟩
    · obtain ⟨outcome, hevent, hresult⟩ := h.outcome task' result' hmem
      exact ⟨outcome, List.mem_cons_of_mem _ hevent, hresult⟩
    · obtain ⟨outcome, hevent, hresult⟩ := h.pushing i task' result' hphase
      exact ⟨outcome, List.mem_cons_of_mem _ hevent, hresult⟩
  · exact fun j hj => h.exited j (hkept j _ (by simp) hj)

theorem accounted_workerStep
    {s : Multitasker n} (h : Accounted s) (i : Fin n) (outcome : Outcome) :
    Accounted (s.workerStep i outcome) := by
  unfold workerStep
  cases hphase : s.phase i with
  | asleep => exact h
  | exited => exact h
  | running task => exact accounted_execute h hphase outcome
  | pushing task result => exact accounted_push h hphase
  | awake =>
      cases htasks : s.tasks with
      | cons task rest =>
          simp only [List.isEmpty_cons, Bool.and_false, Bool.false_eq_true, if_false]
          exact accounted_dequeue h hphase htasks
      | nil =>
          simp only [List.isEmpty_nil, Bool.and_true]
          split
          · rename_i hstop
            have hexit := accounted_idleStep h (Or.inl hphase)
              (Or.inr (Or.inr ⟨rfl, hstop, htasks⟩))
            rwa [htasks] at hexit
          · have hsleep := accounted_idleStep h (Or.inl hphase) (Or.inr (Or.inl rfl))
            rwa [htasks] at hsleep

theorem accounted_wakeUp {s : Multitasker n} (h : Accounted s) (i : Fin n) :
    Accounted { s with phase := Function.update s.phase i (Multitasker.wakeUp (s.phase i)) } := by
  by_cases hphase : s.phase i = .asleep
  · exact accounted_idleStep h (Or.inr hphase) (Or.inl (by rw [hphase]; rfl))
  · have hsame : Multitasker.wakeUp (s.phase i) = s.phase i := by
      unfold Multitasker.wakeUp
      split
      · exact absurd ‹_› hphase
      · rfl
    rw [hsame, Function.update_eq_self]
    exact h

theorem accounted_step {s : Multitasker n} (h : Accounted s) (action : Action n) :
    Accounted (step s action) := by
  cases action with
  | addTask woken =>
      simp only [step]
      split
      · rename_i hwoken
        cases hadd : s.addTask woken with
        | ok s' => exact accounted_addTask h hwoken hadd
        | error e => exact h
      · exact h
  | signalStop => exact accounted_signalStop h
  | waitForResults => exact h
  | getResults =>
      simp only [step]
      cases hget : s.getResults with
      | ok reply => exact accounted_getResults h hget
      | error e => exact h
  | wakeUp i => exact accounted_wakeUp h i
  | work i outcome => exact accounted_workerStep h i outcome

theorem accounted_after (actions : List (Action n)) : Accounted (after actions) := by
  have hmeets : Meets step (fun _ _ => True) (start n) actions :=
    meets_of_forall (fun _ _ _ => trivial) _
  exact run_invariant Accounted (fun _ action h _ => accounted_step h action)
    (accounted_start n) hmeets

/-! ## Exactly once -/

/-- Each task is executed and gives its result at most once, the calls of the owner
see all of them, and the workers leave none in the queue. -/
structure ExactlyOnce (s : Multitasker n) : Prop where
  executed_nodup : (executedTasks s.history).Nodup
  executed_accepted : executedTasks s.history ⊆ acceptedTasks s.history
  pushed_nodup : ((pushedResults s.history).map Prod.fst).Nodup
  pushed_outcome : ∀ task result, (task, result) ∈ pushedResults s.history →
    ∃ outcome, .executed task outcome ∈ s.history ∧ result = outcome.result
  waited : s.WaitOver →
    acceptedTasks s.history ⊆ executedTasks s.history ∧
      s.results.length = acceptedSince s.history
  collected :
    (∃ e, s.getResults = .error e) ∧ step s .getResults = s ∨
      ∃ s', s.getResults = .ok (s.results, s') ∧ s.results.length = acceptedSince s.history ∧
        s'.results = [] ∧ handedResults s'.history = pushedResults s'.history
  drained : (∃ i, s.phase i = .exited) → s.tasks = []
  completed : (∀ i, s.phase i = .exited) →
    acceptedTasks s.history ⊆ executedTasks s.history ∧
      executedTasks s.history ⊆ (pushedResults s.history).map Prod.fst

theorem waitOver_iff {s : Multitasker n} : s.WaitOver ↔ s.isBusy = false := by
  rw [isBusy_eq_false, WaitOver, not_or, Nat.not_lt, Nat.not_lt, Nat.le_zero,
    List.length_eq_zero_iff]

theorem Accounted.executed_le {s : Multitasker n} (h : Accounted s) :
    (executedTasks s.history : Multiset ℕ) ≤ acceptedTasks s.history := by
  rw [h.accepted, add_assoc]
  exact Multiset.le_add_right _ _

theorem Accounted.pushed_le {s : Multitasker n} (h : Accounted s) :
    ((pushedResults s.history).map Prod.fst : Multiset ℕ) ≤ executedTasks s.history := by
  rw [h.executed]
  exact Multiset.le_add_right _ _

theorem Accounted.executed_of_idle
    {s : Multitasker n} (h : Accounted s) (hidle : s.isBusy = false) :
    acceptedTasks s.history ⊆ executedTasks s.history := by
  intro task htask
  rw [← Multiset.mem_coe, (h.idle hidle).2.2, Multiset.mem_coe] at htask
  exact htask

/-- When all workers have exited, none of them holds a task. -/
theorem Accounted.completed_of_exited
    {s : Multitasker n} (h : Accounted s) (hn : 0 < n) (hexited : ∀ i, s.phase i = .exited) :
    acceptedTasks s.history ⊆ executedTasks s.history ∧
      executedTasks s.history ⊆ (pushedResults s.history).map Prod.fst := by
  have htasks : s.tasks = [] := (h.exited ⟨0, hn⟩ (hexited _)).2
  have haccepted := h.accepted
  have hexecuted := h.executed
  simp only [htasks, hexited, WorkerPhase.unexecuted, WorkerPhase.unpushed,
    Finset.sum_const_zero, Multiset.coe_nil, add_zero] at haccepted hexecuted
  constructor
  · intro task htask
    rw [← Multiset.mem_coe, haccepted, Multiset.mem_coe] at htask
    exact htask
  · intro task htask
    rw [← Multiset.mem_coe, hexecuted, Multiset.mem_coe] at htask
    exact htask

/-- In every run of a pool with a worker, under every order of the steps and every
outcome of the tasks. -/
theorem after_exactlyOnce {n : ℕ} (hn : 0 < n) (actions : List (Action n)) :
    ExactlyOnce (after actions) := by
  have h := accounted_after actions
  have hexecuted : (executedTasks (after actions).history).Nodup :=
    Multiset.coe_nodup.1 (Multiset.nodup_of_le h.executed_le (Multiset.coe_nodup.2 h.nodup))
  constructor
  · exact hexecuted
  · exact fun task htask => Multiset.mem_coe.1 (Multiset.mem_of_le h.executed_le htask)
  · exact Multiset.coe_nodup.1
      (Multiset.nodup_of_le h.pushed_le (Multiset.coe_nodup.2 hexecuted))
  · exact h.outcome
  · intro hover
    have hidle := waitOver_iff.1 hover
    exact ⟨h.executed_of_idle hidle, by rw [← h.since]; exact (h.idle hidle).2.1⟩
  · cases hbusy : (after actions).isBusy with
    | true => exact Or.inl (by simp [step, getResults, hbusy, Except.toOption])
    | false =>
        refine Or.inr ⟨_, by rw [getResults, hbusy]; rfl, ?_, rfl, ?_⟩
        · rw [← h.since]
          exact (h.idle hbusy).2.1
        · exact h.pushed.symm
  · rintro ⟨i, hi⟩
    exact (h.exited i hi).2
  · exact h.completed_of_exited hn

theorem after_exactlyOnce_stopped :
    (acceptedTasks
        (after (n := 2)
          [.addTask none, .addTask none, .signalStop, .work 1 .threwUnknown,
            .work 1 (.returned (true, "done")), .work 1 .threwUnknown]).history).length = 2 ∧
      ExactlyOnce
        (after (n := 2)
          [.addTask none, .addTask none, .signalStop, .work 1 .threwUnknown,
            .work 1 (.returned (true, "done")), .work 1 .threwUnknown]) :=
  ⟨by decide, after_exactlyOnce (by decide) _⟩

/-! ## Progress -/

/-- The worker can dequeue a task, execute one, or push its result. -/
def WorkerEnabled (s : Multitasker n) (i : Fin n) : Prop :=
  match s.phase i with
  | .awake => s.tasks ≠ []
  | .running _ => True
  | .pushing _ _ => True
  | .asleep => False
  | .exited => False

/-- Some accepted task has no result yet. -/
def Pending (s : Multitasker n) : Prop :=
  ∃ task ∈ acceptedTasks s.history, task ∉ (pushedResults s.history).map Prod.fst

/-- While a task is queued, some worker will look at the queue again. -/
def Attended (s : Multitasker n) : Prop :=
  s.tasks ≠ [] → ∃ i, s.phase i ≠ .asleep ∧ s.phase i ≠ .exited

theorem wakeUp_ne_asleep (phase : WorkerPhase) : Multitasker.wakeUp phase ≠ .asleep := by
  cases phase <;> simp [Multitasker.wakeUp]

theorem wakeUp_eq_exited {phase : WorkerPhase} :
    Multitasker.wakeUp phase = .exited ↔ phase = .exited := by
  cases phase <;> simp [Multitasker.wakeUp]

theorem attended_notifyOne
    {phase : Fin n → WorkerPhase} {woken : Option (Fin n)} (hn : 0 < n)
    (hwoken : MayWake phase woken) (hrunning : ∀ i, phase i ≠ .exited) :
    ∃ i, notifyOne woken phase i ≠ .asleep ∧ notifyOne woken phase i ≠ .exited := by
  cases woken with
  | none => exact ⟨⟨0, hn⟩, hwoken _, hrunning _⟩
  | some i => exact ⟨i, by simp [notifyOne], by simp [notifyOne]⟩

theorem attended_workerStep
    {s : Multitasker n} (h : Attended s) (i : Fin n) (outcome : Outcome) :
    Attended (s.workerStep i outcome) := by
  unfold workerStep
  cases hphase : s.phase i with
  | asleep => exact h
  | exited => exact h
  | running task => exact fun _ => ⟨i, by simp, by simp⟩
  | pushing task result =>
      exact fun _ => ⟨i, by simp [notifyAll, Multitasker.wakeUp],
        by simp [notifyAll, Multitasker.wakeUp]⟩
  | awake =>
      cases htasks : s.tasks with
      | cons task rest =>
          simp only [List.isEmpty_cons, Bool.and_false, Bool.false_eq_true, if_false]
          exact fun _ => ⟨i, by simp, by simp⟩
      | nil =>
          simp only [List.isEmpty_nil, Bool.and_true]
          split
          · exact fun hne => absurd rfl hne
          · exact fun hne => absurd rfl hne

theorem attended_step
    {s : Multitasker n} (hn : 0 < n) (haccounted : Accounted s) (h : Attended s)
    (action : Action n) :
    Attended (step s action) := by
  cases action with
  | addTask woken =>
      simp only [step]
      split
      · rename_i hwoken
        unfold addTask
        split
        · exact h
        · rename_i hstop
          exact fun _ => attended_notifyOne hn hwoken fun i hi =>
            hstop (haccounted.exited i hi).1
      · exact h
  | signalStop =>
      intro htasks
      obtain ⟨i, hasleep, hexited⟩ := h htasks
      exact ⟨i, wakeUp_ne_asleep _, fun hi => hexited (wakeUp_eq_exited.1 hi)⟩
  | waitForResults => exact h
  | getResults =>
      simp only [step]
      unfold getResults
      split
      · exact h
      · exact h
  | wakeUp i =>
      intro htasks
      obtain ⟨j, hasleep, hexited⟩ := h htasks
      by_cases hij : j = i
      · subst hij
        refine ⟨j, ?_, ?_⟩
        · simpa [step] using wakeUp_ne_asleep (s.phase j)
        · simpa [step, wakeUp_eq_exited] using hexited
      · exact ⟨j, by simpa [step, Function.update_of_ne hij] using hasleep,
          by simpa [step, Function.update_of_ne hij] using hexited⟩
  | work i outcome => exact attended_workerStep h i outcome

theorem attended_after (hn : 0 < n) (actions : List (Action n)) : Attended (after actions) := by
  have hmeets : Meets step (fun _ _ => True) (start n) actions :=
    meets_of_forall (fun _ _ _ => trivial) _
  have hinvariant : Accounted (after actions) ∧ Attended (after actions) :=
    run_invariant (fun s => Accounted s ∧ Attended s)
      (fun _ action h _ => ⟨accounted_step h.1 action, attended_step hn h.1 h.2 action⟩)
      ⟨accounted_start n, fun htasks => absurd rfl htasks⟩ hmeets
  exact hinvariant.2

/-- A task without a result is queued or with a worker, and in each case some worker
can go on. -/
theorem enabled_of_pending
    (hn : 0 < n) (actions : List (Action n)) (hpending : Pending (after actions)) :
    ∃ i, WorkerEnabled (after actions) i := by
  have haccounted := accounted_after actions
  obtain ⟨task, haccepted, hpushed⟩ := hpending
  rw [← Multiset.mem_coe, haccounted.accepted, Multiset.mem_add, Multiset.mem_add,
    haccounted.executed, Multiset.mem_add, Multiset.mem_sum, Multiset.mem_sum,
    Multiset.mem_coe, Multiset.mem_coe] at haccepted
  rcases haccepted with ((hdone | ⟨i, -, hheld⟩) | ⟨i, -, hheld⟩) | hqueued
  · exact absurd hdone hpushed
  · refine ⟨i, ?_⟩
    unfold WorkerEnabled
    cases hphase : (after actions).phase i <;> simp_all [WorkerPhase.unpushed]
  · refine ⟨i, ?_⟩
    unfold WorkerEnabled
    cases hphase : (after actions).phase i <;> simp_all [WorkerPhase.unexecuted]
  · have htasks : (after actions).tasks ≠ [] := List.ne_nil_of_mem hqueued
    obtain ⟨i, hasleep, hexited⟩ := attended_after hn actions htasks
    refine ⟨i, ?_⟩
    unfold WorkerEnabled
    cases hphase : (after actions).phase i with
    | awake => exact htasks
    | running task => trivial
    | pushing task result => trivial
    | asleep => exact absurd hphase hasleep
    | exited => exact absurd hphase hexited

/-- Without a worker the first task waits for ever. -/
theorem not_enabled_without_worker (hn : n = 0) :
    Pending (after (n := n) [.addTask none]) ∧
      ¬ ∃ i, WorkerEnabled (after (n := n) [.addTask none]) i := by
  subst hn
  exact ⟨⟨0, by decide, by decide⟩, fun ⟨i, _⟩ => i.elim0⟩

/-- The constructor halves the number of cores, so that a worker can always go on
exactly when two cores are reported. -/
theorem enabled_iff_two_cores {numThreads hardwareConcurrency : ℕ} (hthreads : 1 ≤ numThreads) :
    (∀ actions : List (Action (workerCount numThreads hardwareConcurrency)),
        Pending (after actions) → ∃ i, WorkerEnabled (after actions) i) ↔
      2 ≤ hardwareConcurrency := by
  constructor
  · intro henabled
    by_contra hcores
    have hnone : workerCount numThreads hardwareConcurrency = 0 := by
      unfold workerCount
      omega
    obtain ⟨hpending, hstuck⟩ := not_enabled_without_worker hnone
    exact hstuck (henabled _ hpending)
  · intro hcores actions hpending
    have hn : 0 < workerCount numThreads hardwareConcurrency := by
      unfold workerCount
      omega
    exact enabled_of_pending hn actions hpending

theorem enabled_iff_two_cores_quad :
    (∀ actions : List (Action (workerCount 8 4)),
        Pending (after actions) → ∃ i, WorkerEnabled (after actions) i) ↔
      2 ≤ 4 :=
  enabled_iff_two_cores (by decide)

/-- On one core no worker is started. -/
theorem single_core_stuck :
    ¬ ∀ actions : List (Action (workerCount 4 1)),
      Pending (after actions) → ∃ i, WorkerEnabled (after actions) i := by
  intro henabled
  obtain ⟨hpending, hstuck⟩ := not_enabled_without_worker (n := workerCount 4 1) rfl
  exact hstuck (henabled _ hpending)

end Multitasker

end ArtdaqDatabase
