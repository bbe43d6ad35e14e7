import ArtdaqDatabase.InPlaceUpdate

/-!
# Invariants of updates in place

`Ensures P Q x` says of a computation on a state that it leaves the property `P`
wherever it starts with it, whether it throws or not, and that what it returns
there has the property `Q`.  It follows from the parts of `x` alone.
-/

namespace InPlaceUpdate

variable {ε σ α β : Type}

/-- What a pure computation returns has the property. -/
def Gives (Q : α → Prop) (x : Except ε α) : Prop :=
  ∀ a, x = .ok a → Q a

def Ensures (P : σ → Prop) (Q : α → Prop) (x : InPlace ε σ α) : Prop :=
  ∀ s, P s → P (after x s) ∧ ∀ a s', x s = .ok a s' → Q a

/-! ## Pure computations -/

section Gives

variable {Q : α → Prop} {R : β → Prop}

theorem Gives.ok {a : α} (ha : Q a) : Gives Q (.ok a : Except ε α) := by
  intro b hb
  rwa [← Except.ok.inj hb]

theorem Gives.error (e : ε) : Gives Q (.error e : Except ε α) := by
  intro b hb
  simp at hb

theorem Gives.bind {x : Except ε α} {f : α → Except ε β} (hx : Gives Q x)
    (hf : ∀ a, Q a → Gives R (f a)) : Gives R (x >>= f) := by
  cases x with
  | error e => exact Gives.error e
  | ok a => exact hf a (hx a rfl)

theorem Gives.mono {x : Except ε α} {Q' : α → Prop} (hx : Gives Q x) (hQ : ∀ a, Q a → Q' a) :
    Gives Q' x :=
  fun a ha => hQ a (hx a ha)

theorem Gives.ite {c : Prop} [Decidable c] {x y : Except ε α} (hx : Gives Q x) (hy : Gives Q y) :
    Gives Q (if c then x else y) := by
  split
  · exact hx
  · exact hy

theorem Gives.trivial (x : Except ε α) : Gives (fun _ => True) x :=
  fun _ _ => True.intro

theorem Gives.mapM {f : α → Except ε β} {xs : List α} (hf : ∀ x ∈ xs, Gives R (f x)) :
    Gives (fun ys => ∀ y ∈ ys, R y) (xs.mapM f) := by
  induction xs with
  | nil => exact Gives.ok (by simp)
  | cons x xs ih =>
      rw [List.mapM_cons]
      refine (hf x (by simp)).bind fun y hy => ?_
      refine (ih fun z hz => hf z (List.mem_cons_of_mem _ hz)).bind fun ys hys => ?_
      refine Gives.ok fun z hz => ?_
      rcases List.mem_cons.1 hz with rfl | hz
      · exact hy
      · exact hys z hz

/-- A pass that carries a value along. -/
theorem Gives.foldlM {P : β → Prop} {f : β → α → Except ε β} {xs : List α}
    (hf : ∀ b, P b → ∀ x ∈ xs, Gives P (f b x)) {b : β} (hb : P b) :
    Gives P (xs.foldlM f b) := by
  induction xs generalizing b with
  | nil => exact Gives.ok hb
  | cons x xs ih =>
      rw [List.foldlM_cons]
      refine (hf b hb x (by simp)).bind fun b' hb' => ?_
      exact ih (fun b hb y hy => hf b hb y (List.mem_cons_of_mem _ hy)) hb'

end Gives

/-! ## Computations on a state -/

section Ensures

variable {P : σ → Prop} {Q : α → Prop} {R : β → Prop}

theorem Ensures.after {x : InPlace ε σ α} (hx : Ensures P Q x) {s : σ} (hs : P s) :
    P (after x s) :=
  (hx s hs).1

theorem Ensures.returns {x : InPlace ε σ α} (hx : Ensures P Q x) {s s' : σ} {a : α} (hs : P s)
    (hrun : x s = .ok a s') : Q a ∧ P s' := by
  have hafter := hx.after hs
  rw [after_of_ok hrun] at hafter
  exact ⟨(hx s hs).2 a s' hrun, hafter⟩

theorem Ensures.pure {a : α} (ha : Q a) : Ensures P Q (Pure.pure a : InPlace ε σ α) := by
  intro s hs
  refine ⟨hs, fun b s' hrun => ?_⟩
  cases hrun
  exact ha

theorem Ensures.throw (e : ε) : Ensures P Q (throw e : InPlace ε σ α) := by
  intro s hs
  refine ⟨hs, fun b s' hrun => ?_⟩
  cases hrun

theorem Ensures.lift {x : Except ε α} (hx : Gives Q x) : Ensures P Q (lift x) := by
  intro s hs
  rw [after_lift]
  exact ⟨hs, fun a s' hrun => hx a (lift_run_iff.1 hrun).1⟩

theorem Ensures.fetch {part : σ → Except ε α} (hpart : ∀ s, P s → Gives Q (part s)) :
    Ensures P Q (fetch part) :=
  fun s hs => Ensures.lift (hpart s hs) s hs

theorem Ensures.write {f : σ → σ} (hf : ∀ s, P s → P (f s)) :
    Ensures P (fun _ => True) (write f : InPlace ε σ Unit) :=
  fun s hs => ⟨hf s hs, fun _ _ _ => True.intro⟩

theorem Ensures.bind {x : InPlace ε σ α} {f : α → InPlace ε σ β} (hx : Ensures P Q x)
    (hf : ∀ a, Q a → Ensures P R (f a)) : Ensures P R (x >>= f) := by
  intro s hs
  cases hrun : x s with
  | error e s' =>
      have hafter := hx.after hs
      rw [after_of_error hrun] at hafter
      rw [after_bind_error hrun, bind_error hrun]
      exact ⟨hafter, fun b s'' hresult => by cases hresult⟩
  | ok a s' =>
      obtain ⟨ha, hs'⟩ := hx.returns hs hrun
      rw [after_bind hrun, bind_run hrun]
      exact hf a ha s' hs'

theorem Ensures.mono {x : InPlace ε σ α} {Q' : α → Prop} (hx : Ensures P Q x)
    (hQ : ∀ a, Q a → Q' a) : Ensures P Q' x :=
  fun s hs => ⟨(hx s hs).1, fun a s' hrun => hQ a ((hx s hs).2 a s' hrun)⟩

theorem Ensures.ite {c : Prop} [Decidable c] {x y : InPlace ε σ α} (hx : Ensures P Q x)
    (hy : Ensures P Q y) : Ensures P Q (if c then x else y) := by
  split
  · exact hx
  · exact hy

/-- A check that throws, and what follows it. -/
theorem Ensures.check {c : Prop} [Decidable c] {e : ε} {f : Unit → InPlace ε σ α}
    (hf : Ensures P Q (f ())) :
    Ensures P Q (if c then MonadExcept.throw e >>= f else f ()) :=
  Ensures.ite (Ensures.bind (Ensures.throw (Q := fun _ => True) e) fun _ _ => hf) hf

/-- An exception is handled in the state that it left. -/
theorem Ensures.tryCatch {body : InPlace ε σ α} {handler : ε → InPlace ε σ α}
    (hbody : Ensures P Q body) (hhandler : ∀ e, Ensures P Q (handler e)) :
    Ensures P Q (tryCatch body handler) := by
  intro s hs
  cases hrun : body s with
  | ok a s' =>
      obtain ⟨ha, hs'⟩ := hbody.returns hs hrun
      have hcaught : MonadExcept.tryCatch body handler s = .ok a s' := tryCatch_run hrun
      rw [after_of_ok hcaught]
      refine ⟨hs', fun b s'' hresult => ?_⟩
      rw [hcaught, EStateM.Result.ok.injEq] at hresult
      rwa [← hresult.1]
  | error e s' =>
      have hs' := hbody.after hs
      rw [after_of_error hrun] at hs'
      have hcaught : MonadExcept.tryCatch body handler s = handler e s' := tryCatch_caught hrun
      have hhandled := hhandler e s' hs'
      rw [InPlaceUpdate.after, hcaught]
      exact hhandled

theorem Ensures.forM {xs : List β} {act : β → InPlace ε σ PUnit}
    (hact : ∀ x ∈ xs, Ensures P (fun _ => True) (act x)) :
    Ensures P (fun _ => True) (xs.forM act) := by
  induction xs with
  | nil => exact Ensures.pure True.intro
  | cons x xs ih =>
      exact (hact x (by simp)).bind fun _ _ =>
        ih fun y hy => hact y (List.mem_cons_of_mem _ hy)

end Ensures

end InPlaceUpdate
