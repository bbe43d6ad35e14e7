import ArtdaqDatabase.InPlaceUpdate

/-!
# Simulation of updates in place

Two computations, on a concrete and on an abstract state.  `Simulates R Q E x y` says
that from related states both return, with results that `Q` relates, or both throw,
with exceptions that `E` relates, and that the states they leave are related again.
It is shown part by part, and a list of calls keeps it from one call to the next.
-/

namespace InPlaceUpdate

variable {ε σ τ α β γ δ : Type}

/-- Both return or both throw, and leave related states. -/
inductive RelatedResults (R : σ → τ → Prop) (Q : α → β → Prop) (E : ε → ε → Prop) :
    EStateM.Result ε σ α → EStateM.Result ε τ β → Prop
  | ok {a b s t} (hresult : Q a b) (hstate : R s t) : RelatedResults R Q E (.ok a s) (.ok b t)
  | error {e e' s t} (hresult : E e e') (hstate : R s t) :
      RelatedResults R Q E (.error e s) (.error e' t)

def Simulates (R : σ → τ → Prop) (Q : α → β → Prop) (E : ε → ε → Prop)
    (x : InPlace ε σ α) (y : InPlace ε τ β) : Prop :=
  ∀ s t, R s t → RelatedResults R Q E (x s) (y t)

/-- Both pure computations return or both fail. -/
inductive RelatedValues (Q : α → β → Prop) (E : ε → ε → Prop) : Except ε α → Except ε β → Prop
  | ok {a b} (hresult : Q a b) : RelatedValues Q E (.ok a) (.ok b)
  | error {e e'} (hresult : E e e') : RelatedValues Q E (.error e) (.error e')

section Rules

variable {R : σ → τ → Prop} {Q : α → β → Prop} {E : ε → ε → Prop}

theorem RelatedValues.refl (hE : ∀ e, E e e) (x : Except ε α) : RelatedValues Eq E x x := by
  cases x with
  | ok a => exact .ok rfl
  | error e => exact .error (hE e)

theorem RelatedResults.mono
    {Q' : α → β → Prop} {E' : ε → ε → Prop} (hQ : ∀ a b, Q a b → Q' a b)
    (hE : ∀ e e', E e e' → E' e e') {r : EStateM.Result ε σ α} {r' : EStateM.Result ε τ β}
    (h : RelatedResults R Q E r r') : RelatedResults R Q' E' r r' := by
  cases h with
  | ok hresult hstate => exact .ok (hQ _ _ hresult) hstate
  | error hresult hstate => exact .error (hE _ _ hresult) hstate

theorem Simulates.pure {a : α} {b : β} (hresult : Q a b) :
    Simulates R Q E (Pure.pure a) (Pure.pure b) :=
  fun _ _ hstate => .ok hresult hstate

theorem Simulates.throw {e e' : ε} (hresult : E e e') :
    Simulates R Q E (throw e : InPlace ε σ α) (throw e' : InPlace ε τ β) :=
  fun _ _ hstate => .error hresult hstate

theorem Simulates.lift {x : Except ε α} {y : Except ε β} (h : RelatedValues Q E x y) :
    Simulates R Q E (lift x) (lift y) := by
  intro s t hstate
  cases h with
  | ok hresult => exact .ok hresult hstate
  | error hresult => exact .error hresult hstate

theorem Simulates.fetch {part : σ → Except ε α} {part' : τ → Except ε β}
    (h : ∀ s t, R s t → RelatedValues Q E (part s) (part' t)) :
    Simulates R Q E (fetch part) (fetch part') :=
  fun s t hstate => Simulates.lift (h s t hstate) s t hstate

theorem Simulates.write {f : σ → σ} {g : τ → τ} (h : ∀ s t, R s t → R (f s) (g t)) :
    Simulates R (fun _ _ => True) E (write f) (write g) :=
  fun s t hstate => .ok True.intro (h s t hstate)

theorem Simulates.bind
    {Q' : γ → δ → Prop} {x : InPlace ε σ α} {y : InPlace ε τ β} {f : α → InPlace ε σ γ}
    {g : β → InPlace ε τ δ} (hx : Simulates R Q E x y)
    (hf : ∀ a b, Q a b → Simulates R Q' E (f a) (g b)) :
    Simulates R Q' E (x >>= f) (y >>= g) := by
  intro s t hstate
  have hfirst := hx s t hstate
  generalize hrun : x s = r at hfirst
  generalize hrun' : y t = r' at hfirst
  cases hfirst with
  | ok hresult hstate' =>
      rw [bind_run hrun, bind_run hrun']
      exact hf _ _ hresult _ _ hstate'
  | error hresult hstate' =>
      rw [bind_error hrun, bind_error hrun']
      exact .error hresult hstate'

theorem Simulates.map
    {Q' : γ → δ → Prop} {x : InPlace ε σ α} {y : InPlace ε τ β} {f : α → γ} {g : β → δ}
    (h : Simulates R Q E x y) (hfg : ∀ a b, Q a b → Q' (f a) (g b)) :
    Simulates R Q' E (f <$> x) (g <$> y) := by
  rw [← bind_pure_comp, ← bind_pure_comp]
  exact h.bind fun a b hab => Simulates.pure (hfg a b hab)

/-- Related exceptions are handled alike. -/
theorem Simulates.tryCatch
    {body : InPlace ε σ α} {body' : InPlace ε τ β} {handler : ε → InPlace ε σ α}
    {handler' : ε → InPlace ε τ β} {E' : ε → ε → Prop} (hbody : Simulates R Q E' body body')
    (hhandler : ∀ e e', E' e e' → Simulates R Q E (handler e) (handler' e')) :
    Simulates R Q E (tryCatch body handler) (tryCatch body' handler') := by
  intro s t hstate
  have hresults := hbody s t hstate
  simp only [MonadExcept.tryCatch, tryCatchThe, MonadExceptOf.tryCatch, EStateM.tryCatch]
  generalize body s = r at hresults ⊢
  generalize body' t = r' at hresults ⊢
  cases hresults with
  | ok hresult hstate' => exact .ok hresult hstate'
  | error hresult hstate' => exact hhandler _ _ hresult _ _ hstate'

theorem Simulates.ite
    {c : Prop} [Decidable c] {x x' : InPlace ε σ α} {y y' : InPlace ε τ β}
    (h : Simulates R Q E x y) (h' : Simulates R Q E x' y') :
    Simulates R Q E (if c then x else x') (if c then y else y') := by
  split
  · exact h
  · exact h'

theorem Simulates.mono
    {x : InPlace ε σ α} {y : InPlace ε τ β} {Q' : α → β → Prop} {E' : ε → ε → Prop}
    (h : Simulates R Q E x y) (hQ : ∀ a b, Q a b → Q' a b) (hE : ∀ e e', E e e' → E' e e') :
    Simulates R Q' E' x y :=
  fun s t hstate => (h s t hstate).mono hQ hE

/-- A pass over one list on both sides. -/
theorem Simulates.mapM
    {xs : List γ} {f : γ → InPlace ε σ α} {g : γ → InPlace ε τ β}
    (h : ∀ x ∈ xs, Simulates R Q E (f x) (g x)) :
    Simulates R (List.Forall₂ Q) E (xs.mapM f) (xs.mapM g) := by
  induction xs with
  | nil => exact Simulates.pure List.Forall₂.nil
  | cons x xs ih =>
      rw [List.mapM_cons, List.mapM_cons]
      refine (h x (by simp)).bind fun a b hab => ?_
      refine (ih fun z hz => h z (List.mem_cons_of_mem _ hz)).bind fun as bs hall => ?_
      exact Simulates.pure (List.Forall₂.cons hab hall)

end Rules

/-- A pass that only reads is one reading. -/
theorem mapM_fetch (xs : List γ) (part : γ → σ → Except ε α) (s : σ) :
    (xs.mapM fun x => fetch (part x)) s = lift (xs.mapM fun x => part x s) s := by
  induction xs with
  | nil => rfl
  | cons x xs ih =>
      rw [List.mapM_cons]
      cases hx : part x s with
      | error e =>
          have hall : ((x :: xs).mapM fun x => part x s) = .error e := by
            rw [List.mapM_cons, hx]
            rfl
          rw [bind_error (fetch_error hx), lift_run_error hall s]
      | ok a =>
          rw [bind_run (fetch_ok hx)]
          cases hrest : (xs.mapM fun x => part x s) with
          | error e =>
              have hall : ((x :: xs).mapM fun x => part x s) = .error e := by
                rw [List.mapM_cons, hx, hrest]
                rfl
              rw [bind_error (ih.trans (lift_run_error hrest s)), lift_run_error hall s]
          | ok as =>
              have hall : ((x :: xs).mapM fun x => part x s) = .ok (a :: as) := by
                rw [List.mapM_cons, hx, hrest]
                rfl
              rw [bind_run (ih.trans (lift_run hrest s)), lift_run hall s]
              rfl

/-! ## Runs of calls -/

/-- What each call returned or threw, and the state that the last one left. -/
def replies (perform : γ → InPlace ε σ α) (s : σ) : List γ → List (Except ε α) × σ
  | [] => ([], s)
  | call :: calls =>
      match perform call s with
      | .ok a s' => (.ok a :: (replies perform s' calls).1, (replies perform s' calls).2)
      | .error e s' => (.error e :: (replies perform s' calls).1, (replies perform s' calls).2)

/-- The replies to each call are related. -/
inductive RelatedReplies (Q : γ → α → β → Prop) (E : γ → ε → ε → Prop) :
    List γ → List (Except ε α) → List (Except ε β) → Prop
  | nil : RelatedReplies Q E [] [] []
  | cons {call calls a b as bs} (hfirst : RelatedValues (Q call) (E call) a b)
      (hrest : RelatedReplies Q E calls as bs) :
      RelatedReplies Q E (call :: calls) (a :: as) (b :: bs)

/-- Calls that are simulated one by one are simulated in a row. -/
theorem replies_related
    {R : σ → τ → Prop} {Q : γ → α → β → Prop} {E : γ → ε → ε → Prop}
    {perform : γ → InPlace ε σ α} {perform' : γ → InPlace ε τ β} {calls : List γ}
    (hcalls : ∀ call ∈ calls, Simulates R (Q call) (E call) (perform call) (perform' call))
    {s : σ} {t : τ} (hstate : R s t) :
    RelatedReplies Q E calls (replies perform s calls).1 (replies perform' t calls).1 ∧
      R (replies perform s calls).2 (replies perform' t calls).2 := by
  induction calls generalizing s t with
  | nil => exact ⟨.nil, hstate⟩
  | cons call calls ih =>
      have hlater := fun c hc => hcalls c (List.mem_cons_of_mem call hc)
      have hfirst := hcalls call (by simp) s t hstate
      rw [replies, replies]
      generalize perform call s = r at hfirst ⊢
      generalize perform' call t = r' at hfirst ⊢
      cases hfirst with
      | ok hresult hstate' =>
          obtain ⟨hreplies, hend⟩ := ih hlater hstate'
          exact ⟨.cons (.ok hresult) hreplies, hend⟩
      | error hresult hstate' =>
          obtain ⟨hreplies, hend⟩ := ih hlater hstate'
          exact ⟨.cons (.error hresult) hreplies, hend⟩

end InPlaceUpdate
