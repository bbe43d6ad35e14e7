import Mathlib.Tactic

/-!
# Updates in place

A computation that rewrites a state and may throw, where an exception leaves the
state as it was when it was thrown.  `after` is that state.  `Keeps view x` says
that no part of `x` changes the view of the state; it follows from the parts of
`x` alone, so a frame is proved without running the computation.
-/

namespace InPlaceUpdate

variable {ε σ α β γ : Type}

abbrev InPlace (ε σ : Type) := EStateM ε σ

/-- A pure computation that may fail. -/
def lift (x : Except ε α) : InPlace ε σ α :=
  match x with
  | .ok a => pure a
  | .error e => throw e

/-- Read a part of the state. -/
def fetch (part : σ → Except ε α) : InPlace ε σ α :=
  fun s => lift (part s) s

def write (f : σ → σ) : InPlace ε σ Unit :=
  fun s => .ok () (f s)

/-- The state that a computation leaves, with or without an exception. -/
def after (x : InPlace ε σ α) (s : σ) : σ :=
  match x s with
  | .ok _ s' => s'
  | .error _ s' => s'

/-- Run on a part of the state, which is put back with or without an exception. -/
def within {τ : Type} (part : σ → Except ε τ) (restore : τ → σ → σ) (x : InPlace ε τ α) :
    InPlace ε σ α := fun s =>
  match part s with
  | .ok t =>
      match x t with
      | .ok a t' => .ok a (restore t' s)
      | .error e t' => .error e (restore t' s)
  | .error e => .error e s

/-! ## Running -/

theorem lift_ok (a : α) (s : σ) : (lift (.ok a) : InPlace ε σ α) s = .ok a s := rfl

theorem lift_error (e : ε) (s : σ) : (lift (.error e) : InPlace ε σ α) s = .error e s := rfl

theorem lift_run {x : Except ε α} {a : α} (hx : x = .ok a) (s : σ) :
    (lift x : InPlace ε σ α) s = .ok a s := by
  rw [hx]
  rfl

theorem lift_run_error {x : Except ε α} {e : ε} (hx : x = .error e) (s : σ) :
    (lift x : InPlace ε σ α) s = .error e s := by
  rw [hx]
  rfl

theorem fetch_ok
    {part : σ → Except ε α} {a : α} {s : σ} (hpart : part s = .ok a) :
    fetch part s = .ok a s := by
  rw [fetch, hpart]
  rfl

theorem fetch_error
    {part : σ → Except ε α} {e : ε} {s : σ} (hpart : part s = .error e) :
    fetch part s = .error e s := by
  rw [fetch, hpart]
  rfl

theorem write_run (f : σ → σ) (s : σ) :
    (write f : InPlace ε σ Unit) s = .ok () (f s) := rfl

theorem bind_run
    {x : InPlace ε σ α} {f : α → InPlace ε σ β} {a : α} {s s' : σ}
    (hx : x s = .ok a s') :
    (x >>= f) s = f a s' := by
  simp [bind, EStateM.bind, hx]

theorem bind_error
    {x : InPlace ε σ α} {f : α → InPlace ε σ β} {e : ε} {s s' : σ}
    (hx : x s = .error e s') :
    (x >>= f) s = .error e s' := by
  simp [bind, EStateM.bind, hx]

theorem within_run_iff
    {τ : Type} {part : σ → Except ε τ} {restore : τ → σ → σ} {x : InPlace ε τ α} {a : α}
    {s s' : σ} :
    within part restore x s = .ok a s' ↔
      ∃ t t', part s = .ok t ∧ x t = .ok a t' ∧ s' = restore t' s := by
  unfold within
  cases part s with
  | error e => simp
  | ok t =>
      cases hx : x t with
      | ok a' t' => simp [hx, eq_comm]
      | error e t' => simp [hx]

theorem bind_run_iff
    {x : InPlace ε σ α} {f : α → InPlace ε σ β} {b : β} {s s' : σ} :
    (x >>= f) s = .ok b s' ↔ ∃ a t, x s = .ok a t ∧ f a t = .ok b s' := by
  cases hx : x s with
  | ok a t => simp [bind_run hx]
  | error e t => simp [bind_error hx]

theorem lift_run_iff {x : Except ε α} {a : α} {s s' : σ} :
    (lift x : InPlace ε σ α) s = .ok a s' ↔ x = .ok a ∧ s = s' := by
  cases x with
  | ok b => simp [lift_ok]
  | error e => simp [lift_error]

/-! ## Exceptions that change nothing -/

/-- An exception leaves the state as it was before. -/
def Atomic (x : InPlace ε σ α) : Prop :=
  ∀ s e s', x s = .error e s' → s' = s

theorem Atomic.throw (e : ε) : Atomic (throw e : InPlace ε σ α) := by
  intro s e' s' hrun
  cases hrun
  rfl

/-- What comes before the change only reads. -/
theorem Atomic.lift_bind {x : Except ε α} {f : α → InPlace ε σ β} (hf : ∀ a, Atomic (f a)) :
    Atomic (lift x >>= f) := by
  intro s e s' hrun
  cases x with
  | ok a => exact hf a s e s' hrun
  | error e' =>
      cases hrun
      rfl

theorem Atomic.fetch_bind
    {part : σ → Except ε α} {f : α → InPlace ε σ β} (hf : ∀ a, Atomic (f a)) :
    Atomic (fetch part >>= f) := by
  intro s e s' hrun
  cases hpart : part s with
  | ok a =>
      rw [bind_run (fetch_ok hpart)] at hrun
      exact hf a s e s' hrun
  | error e' =>
      rw [bind_error (fetch_error hpart)] at hrun
      cases hrun
      rfl

theorem Atomic.write_bind_pure (f : σ → σ) (a : α) :
    Atomic (write f >>= fun _ => pure a : InPlace ε σ α) := by
  intro s e s' hrun
  cases hrun

theorem Atomic.bind_pure {x : InPlace ε σ α} (hx : Atomic x) (g : α → β) :
    Atomic (x >>= fun a => pure (g a)) := by
  intro s e s' hrun
  cases hresult : x s with
  | ok a t =>
      rw [bind_run hresult] at hrun
      cases hrun
  | error e' t =>
      rw [bind_error hresult, EStateM.Result.error.injEq] at hrun
      rw [← hrun.2]
      exact hx s e' t hresult

theorem Atomic.within
    {τ : Type} {part : σ → Except ε τ} {restore : τ → σ → σ} {x : InPlace ε τ α}
    (hrestore : ∀ s t, part s = .ok t → restore t s = s) (hx : Atomic x) :
    Atomic (within part restore x) := by
  intro s e s' hrun
  unfold InPlaceUpdate.within at hrun
  cases hpart : part s with
  | error e' =>
      rw [hpart] at hrun
      cases hrun
      rfl
  | ok t =>
      rw [hpart] at hrun
      cases hresult : x t with
      | ok a t' => simp [hresult] at hrun
      | error e' t' =>
          simp only [hresult, EStateM.Result.error.injEq] at hrun
          rw [← hrun.2, hx t e' t' hresult, hrestore s t hpart]

/-- A computation that starts without the state. -/
theorem lift_bind {x : Except ε α} {f : α → Except ε β} (g : β → InPlace ε σ γ) :
    (lift (x >>= f) >>= g : InPlace ε σ γ) = lift x >>= fun a => lift (f a) >>= g := by
  cases x <;> rfl

theorem tryCatch_run
    {body : InPlace ε σ α} {handler : ε → InPlace ε σ α} {a : α} {s s' : σ}
    (hbody : body s = .ok a s') :
    tryCatch body handler s = .ok a s' := by
  simp [tryCatch, tryCatchThe, MonadExceptOf.tryCatch, EStateM.tryCatch, hbody]

theorem tryCatch_caught
    {body : InPlace ε σ α} {handler : ε → InPlace ε σ α} {e : ε} {s s' : σ}
    (hbody : body s = .error e s') :
    tryCatch body handler s = handler e s' := by
  simp only [tryCatch, tryCatchThe, MonadExceptOf.tryCatch, EStateM.tryCatch, hbody]
  rfl

/-- A pass over a list whose steps do not throw folds their effects. -/
theorem forM_run
    {xs : List α} {act : α → InPlace ε σ PUnit} (effect : α → σ → σ)
    (hact : ∀ x ∈ xs, ∀ s, act x s = .ok () (effect x s)) (s : σ) :
    xs.forM act s = .ok () (xs.foldl (fun s x => effect x s) s) := by
  induction xs generalizing s with
  | nil => rfl
  | cons x xs ih =>
      change (act x >>= fun _ => xs.forM act) s = _
      rw [bind_run (hact x (by simp) s), List.foldl_cons]
      exact ih (fun y hy => hact y (List.mem_cons_of_mem _ hy)) (effect x s)

theorem after_of_ok {x : InPlace ε σ α} {a : α} {s s' : σ} (hx : x s = .ok a s') :
    after x s = s' := by
  rw [after, hx]

theorem after_of_error {x : InPlace ε σ α} {e : ε} {s s' : σ} (hx : x s = .error e s') :
    after x s = s' := by
  rw [after, hx]

theorem after_lift (x : Except ε α) (s : σ) : after (lift x) s = s := by
  cases x <;> rfl

/-- A handler that does nothing leaves the state that the exception left. -/
theorem after_tryCatch
    {body : InPlace ε σ α} {handler : ε → InPlace ε σ α}
    (hhandler : ∀ e s, after (handler e) s = s) (s : σ) :
    after (tryCatch body handler) s = after body s := by
  cases hbody : body s with
  | ok a s' => rw [after_of_ok (tryCatch_run hbody), after_of_ok hbody]
  | error e s' =>
      have hcaught : tryCatch body handler s = handler e s' := by
        simp only [tryCatch, tryCatchThe, MonadExceptOf.tryCatch, EStateM.tryCatch, hbody]
        rfl
      rw [after_of_error hbody, ← hhandler e s', after, hcaught, after]

/-- A handler that always returns makes the whole block return. -/
theorem tryCatch_returns
    {body : InPlace ε σ α} {handler : ε → InPlace ε σ α}
    (hhandler : ∀ e s, ∃ a, handler e s = .ok a s) (s : σ) :
    ∃ a, tryCatch body handler s = .ok a (after (tryCatch body handler) s) := by
  cases hbody : body s with
  | ok a s' => exact ⟨a, by rw [after_of_ok (tryCatch_run hbody), tryCatch_run hbody]⟩
  | error e s' =>
      obtain ⟨a, ha⟩ := hhandler e s'
      have hcaught : tryCatch body handler s = .ok a s' := by
        simp only [tryCatch, tryCatchThe, MonadExceptOf.tryCatch, EStateM.tryCatch, hbody]
        exact ha
      exact ⟨a, by rw [after_of_ok hcaught, hcaught]⟩

theorem after_bind
    {x : InPlace ε σ α} {f : α → InPlace ε σ β} {a : α} {s s' : σ} (hx : x s = .ok a s') :
    after (x >>= f) s = after (f a) s' := by
  rw [after, bind_run hx, after]

theorem after_bind_error
    {x : InPlace ε σ α} {f : α → InPlace ε σ β} {e : ε} {s s' : σ} (hx : x s = .error e s') :
    after (x >>= f) s = s' :=
  after_of_error (bind_error hx)

/-- A result that is dropped. -/
theorem after_discard (x : InPlace ε σ α) (s : σ) :
    after (do let _ ← x) s = after x s := by
  cases hx : x s with
  | ok a s' => rw [after_bind hx, after_of_ok hx]; rfl
  | error e s' => rw [after_bind_error hx, after_of_error hx]

theorem after_lift_bind (x : Except ε α) (f : α → InPlace ε σ β) (s : σ) :
    after (lift x >>= f) s =
      match x with
      | .ok a => after (f a) s
      | .error _ => s := by
  cases x with
  | ok a => rfl
  | error e => rfl

theorem after_fetch_bind (part : σ → Except ε α) (f : α → InPlace ε σ β) (s : σ) :
    after (fetch part >>= f) s =
      match part s with
      | .ok a => after (f a) s
      | .error _ => s := by
  cases hpart : part s with
  | ok a => rw [after_bind (fetch_ok hpart)]
  | error e => rw [after_bind_error (fetch_error hpart)]

/-- Reading at the end does not change what was left. -/
theorem after_bind_fetch (x : InPlace ε σ α) (part : σ → Except ε β) (s : σ) :
    after (x >>= fun _ => fetch part) s = after x s := by
  cases hx : x s with
  | ok a s' =>
      rw [after_bind hx, after_of_ok hx]
      exact after_lift (part s') s'
  | error e s' => rw [after_bind_error hx, after_of_error hx]

/-! ## Relations between the states before and after -/

/-- The state after the computation is related to the one before it. -/
def Moves (r : σ → σ → Prop) (x : InPlace ε σ α) : Prop :=
  ∀ s, r s (after x s)

section Moves

variable {r : σ → σ → Prop} [Std.Refl r]

theorem Moves.pure (a : α) : Moves r (Pure.pure a : InPlace ε σ α) := fun s => refl s

theorem Moves.throw (e : ε) : Moves r (throw e : InPlace ε σ α) := fun s => refl s

theorem Moves.lift (x : Except ε α) : Moves r (lift x : InPlace ε σ α) := by
  intro s
  rw [after_lift]
  exact refl s

omit [Std.Refl r] in
theorem Moves.bind
    [IsTrans σ r] {x : InPlace ε σ α} {f : α → InPlace ε σ β}
    (hx : Moves r x) (hf : ∀ a, Moves r (f a)) :
    Moves r (x >>= f) := by
  intro s
  have hfirst := hx s
  cases hrun : x s with
  | error e s' =>
      rw [after_of_error hrun] at hfirst
      rw [after_bind_error hrun]
      exact hfirst
  | ok a s' =>
      rw [after_of_ok hrun] at hfirst
      rw [after_bind hrun]
      exact IsTrans.trans _ _ _ hfirst (hf a s')

omit [Std.Refl r] in
theorem Moves.tryCatch
    {body : InPlace ε σ α} {handler : ε → InPlace ε σ α}
    (hbody : Moves r body) (hhandler : ∀ e s, after (handler e) s = s) :
    Moves r (tryCatch body handler) := by
  intro s
  rw [after_tryCatch hhandler]
  exact hbody s

theorem Moves.forM
    [IsTrans σ r] {xs : List β} {act : β → InPlace ε σ PUnit}
    (hact : ∀ x ∈ xs, Moves r (act x)) :
    Moves r (xs.forM act) := by
  induction xs with
  | nil => exact Moves.pure _
  | cons x xs ih =>
      exact Moves.bind (hact x (by simp)) fun _ =>
        ih fun y hy => hact y (List.mem_cons_of_mem _ hy)

theorem Moves.fetch (part : σ → Except ε α) : Moves r (fetch part) :=
  fun s => Moves.lift (part s) s

omit [Std.Refl r] in
theorem Moves.ite
    {c : Prop} [Decidable c] {x y : InPlace ε σ α} (hx : Moves r x) (hy : Moves r y) :
    Moves r (if c then x else y) := by
  split
  · exact hx
  · exact hy

theorem Moves.mapM
    [IsTrans σ r] {xs : List β} {act : β → InPlace ε σ α} (hact : ∀ x ∈ xs, Moves r (act x)) :
    Moves r (xs.mapM act) := by
  induction xs with
  | nil => exact Moves.pure _
  | cons x xs ih =>
      rw [List.mapM_cons]
      refine Moves.bind (hact x (by simp)) fun _ => Moves.bind ?_ fun _ => Moves.pure _
      exact ih fun y hy => hact y (List.mem_cons_of_mem _ hy)

end Moves

/-! ## Frames -/

/-- The two states look the same. -/
def SameView (view : σ → γ) (s s' : σ) : Prop :=
  view s' = view s

instance (view : σ → γ) : Std.Refl (SameView view) :=
  ⟨fun _ => rfl⟩

instance (view : σ → γ) : IsTrans σ (SameView view) :=
  ⟨fun _ _ _ h h' => h'.trans h⟩

/-- The view of the state is the same after the computation. -/
def Keeps (view : σ → γ) (x : InPlace ε σ α) : Prop :=
  ∀ s, view (after x s) = view s

variable {view : σ → γ}

theorem keeps_iff_moves {x : InPlace ε σ α} : Keeps view x ↔ Moves (SameView view) x := Iff.rfl

theorem Keeps.pure (a : α) : Keeps view (Pure.pure a : InPlace ε σ α) := fun _ => rfl

theorem Keeps.throw (e : ε) : Keeps view (throw e : InPlace ε σ α) := fun _ => rfl

theorem Keeps.lift (x : Except ε α) : Keeps view (lift x : InPlace ε σ α) :=
  fun s => congrArg view (after_lift x s)

theorem Keeps.fetch (part : σ → Except ε α) : Keeps view (fetch part) :=
  fun s => Keeps.lift (part s) s

theorem Keeps.write {f : σ → σ} (hf : ∀ s, view (f s) = view s) :
    Keeps view (write f : InPlace ε σ Unit) :=
  hf

theorem Keeps.bind
    {x : InPlace ε σ α} {f : α → InPlace ε σ β}
    (hx : Keeps view x) (hf : ∀ a, Keeps view (f a)) :
    Keeps view (x >>= f) :=
  keeps_iff_moves.2 (Moves.bind hx hf)

theorem Keeps.tryCatch
    {body : InPlace ε σ α} {handler : ε → InPlace ε σ α}
    (hbody : Keeps view body) (hhandler : ∀ e s, after (handler e) s = s) :
    Keeps view (tryCatch body handler) :=
  keeps_iff_moves.2 (Moves.tryCatch hbody hhandler)

theorem Keeps.forM
    {xs : List β} {act : β → InPlace ε σ PUnit} (hact : ∀ x ∈ xs, Keeps view (act x)) :
    Keeps view (xs.forM act) :=
  keeps_iff_moves.2 (Moves.forM hact)

theorem Keeps.ite
    {c : Prop} [Decidable c] {x y : InPlace ε σ α}
    (hx : Keeps view x) (hy : Keeps view y) :
    Keeps view (if c then x else y) := by
  split
  · exact hx
  · exact hy

/-- A check that throws, and what follows it. -/
theorem Keeps.check
    {c : Prop} [Decidable c] {e : ε} {f : Unit → InPlace ε σ α}
    (hf : Keeps view (f ())) :
    Keeps view (if c then MonadExcept.throw e >>= f else f ()) :=
  Keeps.ite (fun _ => rfl) hf

end InPlaceUpdate
