import Mathlib.Tactic

/-!
# Runs whose steps meet a condition

A run applies a list of actions to a state.  A condition on a state and the next
action is met along a run when every action meets it in the state it is applied
to.  An invariant that is preserved by the steps meeting the condition then holds
in every state of the run, and a reflexive and transitive relation between
neighbouring states holds between its ends.
-/

namespace GuardedRun

variable {σ α : Type*}

def run (step : σ → α → σ) (s : σ) (actions : List α) : σ :=
  actions.foldl step s

/-- Every action of the run meets the condition where it is applied. -/
def Meets (step : σ → α → σ) (condition : σ → α → Prop) : σ → List α → Prop
  | _, [] => True
  | s, a :: actions => condition s a ∧ Meets step condition (step s a) actions

@[simp]
theorem run_nil (step : σ → α → σ) (s : σ) : run step s [] = s := rfl

@[simp]
theorem run_cons (step : σ → α → σ) (s : σ) (a : α) (actions : List α) :
    run step s (a :: actions) = run step (step s a) actions := rfl

theorem run_append (step : σ → α → σ) (s : σ) (first second : List α) :
    run step s (first ++ second) = run step (run step s first) second :=
  List.foldl_append

instance Meets.decidable
    {step : σ → α → σ} {condition : σ → α → Prop} [∀ s a, Decidable (condition s a)] :
    (s : σ) → (actions : List α) → Decidable (Meets step condition s actions)
  | _, [] => isTrue trivial
  | s, a :: actions =>
      have : Decidable (Meets step condition (step s a) actions) := decidable (step s a) actions
      inferInstanceAs (Decidable (condition s a ∧ Meets step condition (step s a) actions))

theorem Meets.mono
    {step : σ → α → σ} {condition condition' : σ → α → Prop} {s : σ} {actions : List α}
    (hmeets : Meets step condition s actions)
    (himp : ∀ s a, condition s a → condition' s a) :
    Meets step condition' s actions := by
  induction actions generalizing s with
  | nil => trivial
  | cons a actions ih => exact ⟨himp s a hmeets.1, ih hmeets.2⟩

theorem Meets.of_append
    {step : σ → α → σ} {condition : σ → α → Prop} {s : σ} {first second : List α}
    (hmeets : Meets step condition s (first ++ second)) :
    Meets step condition s first := by
  induction first generalizing s with
  | nil => trivial
  | cons a first ih => exact ⟨hmeets.1, ih hmeets.2⟩

theorem meets_of_forall
    {step : σ → α → σ} {condition : σ → α → Prop} {actions : List α}
    (hall : ∀ a ∈ actions, ∀ s, condition s a) (s : σ) :
    Meets step condition s actions := by
  induction actions generalizing s with
  | nil => trivial
  | cons a actions ih =>
      exact ⟨hall a (by simp) s, ih (fun b hb => hall b (List.mem_cons_of_mem _ hb)) _⟩

/-- A condition is met along a run when it holds at every point of it. -/
theorem forall_steps_iff_meets
    {step : σ → α → σ} {condition : σ → α → Prop} {s : σ} {actions : List α} :
    (∀ done a todo, actions = done ++ a :: todo → condition (run step s done) a) ↔
      Meets step condition s actions := by
  induction actions generalizing s with
  | nil => exact iff_of_true (fun done a todo hsplit => by simp at hsplit) trivial
  | cons a actions ih =>
      constructor
      · intro hall
        refine ⟨hall [] a actions rfl, ih.1 fun done b todo hsplit => ?_⟩
        exact hall (a :: done) b todo (congrArg (List.cons a) hsplit)
      · rintro ⟨hhead, htail⟩ done b todo hsplit
        cases done with
        | nil =>
            rw [List.nil_append, List.cons.injEq] at hsplit
            rw [← hsplit.1]
            exact hhead
        | cons c done =>
            rw [List.cons_append, List.cons.injEq] at hsplit
            rw [← hsplit.1, run_cons]
            exact ih.2 htail done b todo hsplit.2

/-- Two conditions that agree wherever an invariant of the steps holds. -/
theorem meets_iff_of_invariant
    {step : σ → α → σ} {condition condition' : σ → α → Prop} {invariant : σ → Prop}
    (hstep : ∀ s a, invariant s → invariant (step s a))
    (hiff : ∀ s a, invariant s → (condition s a ↔ condition' s a))
    {s : σ} (hs : invariant s) (actions : List α) :
    Meets step condition s actions ↔ Meets step condition' s actions := by
  induction actions generalizing s with
  | nil => exact Iff.rfl
  | cons a actions ih => exact and_congr (hiff s a hs) (ih (hstep s a hs))

theorem run_invariant
    {step : σ → α → σ} {condition : σ → α → Prop} (invariant : σ → Prop)
    (hstep : ∀ s a, invariant s → condition s a → invariant (step s a))
    {s : σ} {actions : List α}
    (hs : invariant s) (hmeets : Meets step condition s actions) :
    invariant (run step s actions) := by
  induction actions generalizing s with
  | nil => exact hs
  | cons a actions ih => exact ih (hstep s a hs hmeets.1) hmeets.2

theorem run_relation
    {step : σ → α → σ} {condition : σ → α → Prop} {invariant : σ → Prop}
    {r : σ → σ → Prop} (hrefl : ∀ s, r s s) (htrans : ∀ s t u, r s t → r t u → r s u)
    (hstep : ∀ s a, invariant s → condition s a → invariant (step s a) ∧ r s (step s a))
    {s : σ} {actions : List α}
    (hs : invariant s) (hmeets : Meets step condition s actions) :
    r s (run step s actions) := by
  induction actions generalizing s with
  | nil => exact hrefl s
  | cons a actions ih =>
      obtain ⟨hinv, hr⟩ := hstep s a hs hmeets.1
      exact htrans _ _ _ hr (ih hinv hmeets.2)

/-! ## Answers -/

section Answers

variable {τ β : Type*}

/-- What the calls are answered, each in the state that the ones before it leave. -/
def replyRun (step : σ → α → β × σ) : σ → List α → List β
  | _, [] => []
  | s, a :: calls => (step s a).1 :: replyRun step (step s a).2 calls

/-- Two systems answer alike in a run if each step does from related states.  The
relation may depend on the calls that are still to come, and the condition is met
along the run of the second system. -/
theorem answers_eq
    {step : σ → α → β × σ} {step' : τ → α → β × τ} {related : List α → σ → τ → Prop}
    {condition : τ → α → Prop}
    (hstep : ∀ s t a calls, related (a :: calls) s t → condition t a →
      (step s a).1 = (step' t a).1 ∧ related calls (step s a).2 (step' t a).2)
    {s : σ} {t : τ} {calls : List α} (hrelated : related calls s t)
    (hmeets : Meets (fun t a => (step' t a).2) condition t calls) :
    replyRun step s calls = replyRun step' t calls ∧
      related [] (run (fun s a => (step s a).2) s calls)
        (run (fun t a => (step' t a).2) t calls) := by
  induction calls generalizing s t with
  | nil => exact ⟨rfl, hrelated⟩
  | cons a calls ih =>
      obtain ⟨hanswer, hrelated'⟩ := hstep s t a calls hrelated hmeets.1
      obtain ⟨hrest, hfinal⟩ := ih hrelated' hmeets.2
      exact ⟨by rw [replyRun, replyRun, hanswer, hrest], hfinal⟩

end Answers

end GuardedRun
