import ArtdaqDatabase.GuardedRun
import Mathlib.Tactic

/-!
# Interleaved tasks

Tasks that share a state, each in a phase of its own.  One task at a time takes its next
step, in any order.  What is known of a task by its phase alone cannot be undone by the
others; if each step keeps what is known of its own task, and the shared state stands for
what the tasks that have acted have done, both hold after every schedule.
-/

namespace InterleavedTasks

open GuardedRun

variable {σ φ ι : Type*}

/-- The shared state and the phases of the tasks. -/
@[ext]
structure TaskPool (σ φ ι : Type*) where
  shared : σ
  phase : ι → φ

variable [DecidableEq ι] (next : ι → φ → σ → φ × σ)

/-- The next step of one task. -/
def TaskPool.step (pool : TaskPool σ φ ι) (i : ι) : TaskPool σ φ ι where
  shared := (next i (pool.phase i) pool.shared).2
  phase := Function.update pool.phase i (next i (pool.phase i) pool.shared).1

/-- The tasks in a phase after their action. -/
def TaskPool.through (acted : φ → Prop) (pool : TaskPool σ φ ι) : Set ι :=
  {i | acted (pool.phase i)}

theorem TaskPool.step_phase_self (pool : TaskPool σ φ ι) (i : ι) :
    (pool.step next i).phase i = (next i (pool.phase i) pool.shared).1 :=
  Function.update_self ..

theorem TaskPool.step_phase_of_ne (pool : TaskPool σ φ ι) {i j : ι} (hne : j ≠ i) :
    (pool.step next i).phase j = pool.phase j :=
  Function.update_of_ne hne ..

/-- The shared state stands for what has been done, and each task is where it is known to
be. -/
structure PoolHolds (stands : Set ι → σ → Prop) (known : ι → φ → Prop) (acted : φ → Prop)
    (pool : TaskPool σ φ ι) : Prop where
  shared : stands (pool.through acted) pool.shared
  phase : ∀ i, known i (pool.phase i)

/-- A step of one task, whatever the others have done. -/
structure StepKeeps (stands : Set ι → σ → Prop) (known : ι → φ → Prop) (acted : φ → Prop) :
    Prop where
  known_next : ∀ through s i x, stands through s → (i ∈ through ↔ acted x) → known i x →
    known i (next i x s).1
  acted_next : ∀ through s i x, stands through s → (i ∈ through ↔ acted x) → known i x → acted x →
    acted (next i x s).1
  stands_next : ∀ through s i x, stands through s → (i ∈ through ↔ acted x) → known i x →
    stands (through ∪ {j | j = i ∧ acted (next i x s).1}) (next i x s).2

section Rule

variable {next} {stands : Set ι → σ → Prop} {known : ι → φ → Prop} {acted : φ → Prop}
  (hkeeps : StepKeeps next stands known acted)
include hkeeps

theorem StepKeeps.through_step {pool : TaskPool σ φ ι} (hpool : PoolHolds stands known acted pool) (i : ι) :
    (pool.step next i).through acted =
      pool.through acted ∪ {j | j = i ∧ acted (next i (pool.phase i) pool.shared).1} := by
  have hself := hkeeps.acted_next _ _ i _ hpool.shared Iff.rfl (hpool.phase i)
  ext j
  by_cases hj : j = i
  · subst hj
    simp only [TaskPool.through, Set.mem_ofPred_eq, TaskPool.step_phase_self, Set.mem_union, true_and]
    tauto
  · simp [TaskPool.through, TaskPool.step_phase_of_ne next pool hj, hj]

theorem StepKeeps.step {pool : TaskPool σ φ ι} (hpool : PoolHolds stands known acted pool) (i : ι) :
    PoolHolds stands known acted (pool.step next i) := by
  constructor
  · rw [hkeeps.through_step hpool i]
    exact hkeeps.stands_next _ _ i _ hpool.shared Iff.rfl (hpool.phase i)
  · intro j
    by_cases hj : j = i
    · rw [hj, TaskPool.step_phase_self]
      exact hkeeps.known_next _ _ i _ hpool.shared Iff.rfl (hpool.phase i)
    · rw [TaskPool.step_phase_of_ne next pool hj]
      exact hpool.phase j

/-- What each step keeps holds after every schedule. -/
theorem StepKeeps.run
    {pool : TaskPool σ φ ι} (hpool : PoolHolds stands known acted pool) (schedule : List ι) :
    PoolHolds stands known acted (GuardedRun.run (TaskPool.step next) pool schedule) :=
  run_invariant (PoolHolds stands known acted) (fun _ i hs _ => hkeeps.step hs i) hpool
    (meets_of_forall (fun _ _ _ => trivial) pool)

/-- A task that gets as many steps as its phase has left is through. -/
theorem StepKeeps.left_le
    {left : φ → ℕ} (hleft : ∀ through s i x, stands through s → known i x →
      left (next i x s).1 ≤ left x - 1)
    {pool : TaskPool σ φ ι} (hpool : PoolHolds stands known acted pool) (schedule : List ι) (i : ι) :
    left ((GuardedRun.run (TaskPool.step next) pool schedule).phase i) ≤
      left (pool.phase i) - schedule.count i := by
  induction schedule generalizing pool with
  | nil => exact le_rfl
  | cons j schedule ih =>
      have hrest := ih (hkeeps.step hpool j)
      rw [List.count_cons]
      by_cases hj : j = i
      · subst hj
        have hfirst := hleft _ _ j _ hpool.shared (hpool.phase j)
        rw [TaskPool.step_phase_self] at hrest
        rw [run_cons, if_pos (beq_self_eq_true j)]
        omega
      · rw [TaskPool.step_phase_of_ne next pool fun h => hj h.symm] at hrest
        rw [run_cons, if_neg (by simpa using hj)]
        exact hrest

end Rule

end InterleavedTasks
