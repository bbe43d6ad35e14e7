import ArtdaqDatabase.InPlaceUpdate

/-!
# Updates whose order does not matter

A computation in place may decide everything without looking at the state it
rewrites: it then makes the same elementary updates in every state, its script.
Where the elementary updates commute and repeat without effect, up to an
equivalence of states, two scripts with the same updates end in equivalent states.
-/

namespace CommutingUpdates

open InPlaceUpdate

variable {O S ε α β : Type}

/-- Elementary updates one after the other. -/
def applyAll (act : O → S → S) (ops : List O) (s : S) : S :=
  ops.foldl (fun s op => act op s) s

@[simp]
theorem applyAll_nil (act : O → S → S) (s : S) : applyAll act [] s = s := rfl

@[simp]
theorem applyAll_cons (act : O → S → S) (op : O) (ops : List O) (s : S) :
    applyAll act (op :: ops) s = applyAll act ops (act op s) := rfl

@[simp]
theorem applyAll_append (act : O → S → S) (ops ops' : List O) (s : S) :
    applyAll act (ops ++ ops') s = applyAll act ops' (applyAll act ops s) :=
  List.foldl_append

/-! ## Scripts -/

/-- In every state the computation makes the same updates and has the same result. -/
def Scripted (act : O → S → S) (x : InPlace ε S α) : Prop :=
  ∃ ops r, ∀ s, x s = lift r (applyAll act ops s)

section Scripted

variable {act : O → S → S}

theorem Scripted.lift (r : Except ε α) : Scripted act (lift r : InPlace ε S α) :=
  ⟨[], r, fun _ => rfl⟩

theorem Scripted.pure (a : α) : Scripted act (Pure.pure a : InPlace ε S α) :=
  ⟨[], .ok a, fun _ => rfl⟩

theorem Scripted.write {f : S → S} (op : O) (hf : ∀ s, f s = act op s) :
    Scripted act (write f : InPlace ε S Unit) :=
  ⟨[op], .ok (), fun s => congrArg (EStateM.Result.ok ()) (hf s)⟩

theorem Scripted.bind
    {x : InPlace ε S α} {f : α → InPlace ε S β}
    (hx : Scripted act x) (hf : ∀ a, Scripted act (f a)) :
    Scripted act (x >>= f) := by
  obtain ⟨ops, r, hrun⟩ := hx
  cases r with
  | error e => exact ⟨ops, .error e, fun s => bind_error (hrun s)⟩
  | ok a =>
      obtain ⟨ops', r', hrun'⟩ := hf a
      refine ⟨ops ++ ops', r', fun s => ?_⟩
      rw [bind_run (hrun s), hrun', applyAll_append]

theorem Scripted.tryCatch
    {body : InPlace ε S α} {handler : ε → InPlace ε S α}
    (hbody : Scripted act body) (hhandler : ∀ e, Scripted act (handler e)) :
    Scripted act (tryCatch body handler) := by
  obtain ⟨ops, r, hrun⟩ := hbody
  cases r with
  | ok a => exact ⟨ops, .ok a, fun s => tryCatch_run (hrun s)⟩
  | error e =>
      obtain ⟨ops', r', hrun'⟩ := hhandler e
      refine ⟨ops ++ ops', r', fun s => ?_⟩
      have hthrown : body s = .error e (applyAll act ops s) := hrun s
      rw [applyAll_append, ← hrun']
      simp only [MonadExcept.tryCatch, tryCatchThe, MonadExceptOf.tryCatch, EStateM.tryCatch,
        hthrown]
      rfl

theorem Scripted.forM
    {xs : List β} {f : β → InPlace ε S PUnit} (hf : ∀ x, Scripted act (f x)) :
    Scripted act (xs.forM f) := by
  induction xs with
  | nil => exact Scripted.pure _
  | cons x xs ih => exact Scripted.bind (hf x) fun _ => ih

/-- The updates of a scripted computation. -/
theorem Scripted.exists_after
    {x : InPlace ε S α} (hx : Scripted act x) :
    ∃ ops, ∀ s, after x s = applyAll act ops s := by
  obtain ⟨ops, r, hrun⟩ := hx
  refine ⟨ops, fun s => ?_⟩
  rw [after, hrun]
  cases r <;> rfl

end Scripted

/-! ## Scripts that stop -/

/-- The updates before the first step that throws. -/
def made : List (Option O) → List O
  | [] => []
  | none :: _ => []
  | some op :: steps => op :: made steps

/-- No step throws. -/
def completes (steps : List (Option O)) : Bool := steps.all Option.isSome

theorem completes_iff {steps : List (Option O)} : completes steps = true ↔ none ∉ steps := by
  rw [completes, List.all_eq_true]
  constructor
  · intro hall hnone
    have hsome := hall none hnone
    simp at hsome
  · intro hnone step hstep
    cases step with
    | none => exact absurd hstep hnone
    | some op => rfl

theorem made_append_of_complete {steps : List (Option O)} (hsteps : none ∉ steps)
    (steps' : List (Option O)) :
    made (steps ++ steps') = made steps ++ made steps' := by
  induction steps with
  | nil => rfl
  | cons step steps ih =>
      rw [List.mem_cons, not_or] at hsteps
      cases step with
      | none => exact absurd rfl hsteps.1
      | some op => simp [made, ih hsteps.2]

theorem made_append_of_stopped {steps : List (Option O)} (hsteps : none ∈ steps)
    (steps' : List (Option O)) :
    made (steps ++ steps') = made steps := by
  induction steps with
  | nil => simp at hsteps
  | cons step steps ih =>
      cases step with
      | none => rfl
      | some op =>
          have hrest : none ∈ steps := by simpa using hsteps
          simp [made, ih hrest]

@[simp]
theorem made_map_some (ops : List O) : made (ops.map some) = ops := by
  induction ops with
  | nil => rfl
  | cons op ops ih => simp [made, ih]

/-- Every update of a script that does not stop is made. -/
theorem mem_made_of_complete {steps : List (Option O)} (hsteps : none ∉ steps) {op : O} :
    op ∈ made steps ↔ some op ∈ steps := by
  induction steps with
  | nil => simp [made]
  | cons step steps ih =>
      rw [List.mem_cons, not_or] at hsteps
      cases step with
      | none => exact absurd rfl hsteps.1
      | some op' => simp [made, ih hsteps.2]

theorem mem_of_mem_made {steps : List (Option O)} {op : O} (hop : op ∈ made steps) :
    some op ∈ steps := by
  induction steps with
  | nil => simp [made] at hop
  | cons step steps ih =>
      cases step with
      | none => simp [made] at hop
      | some op' =>
          simp only [made, List.mem_cons] at hop
          rcases hop with rfl | hrest
          · exact List.mem_cons_self
          · exact List.mem_cons_of_mem _ (ih hrest)

/-- In every state the computation makes the updates up to the first step that
throws; without such a step it returns the given result. -/
structure Performs (act : O → S → S) (steps : List (Option O)) (a : α) (x : InPlace ε S α) :
    Prop where
  returns : none ∉ steps → ∀ s, x s = .ok a (applyAll act (made steps) s)
  throws : none ∈ steps → ∃ e, ∀ s, x s = .error e (applyAll act (made steps) s)

section Performs

variable {act : O → S → S} {steps steps' : List (Option O)}

theorem Performs.pure (a : α) : Performs act [] a (Pure.pure a : InPlace ε S α) :=
  ⟨fun _ _ => rfl, by simp⟩

theorem Performs.write {f : S → S} {op : O} (hf : ∀ s, f s = act op s) :
    Performs act [some op] () (write f : InPlace ε S Unit) :=
  ⟨fun _ s => congrArg (EStateM.Result.ok ()) (hf s), by simp⟩

theorem Performs.lift_ok
    {r : Except ε α} {a : α} {b : β} {f : α → InPlace ε S β} (hr : r = .ok a)
    (hf : Performs act steps b (f a)) :
    Performs act steps b (lift r >>= f) := by
  constructor
  · intro hcomplete s
    rw [bind_run (lift_run hr s), hf.returns hcomplete]
  · intro hstop
    obtain ⟨e, hthrown⟩ := hf.throws hstop
    exact ⟨e, fun s => by rw [bind_run (lift_run hr s), hthrown]⟩

theorem Performs.lift_error
    {r : Except ε α} {e : ε} {f : α → InPlace ε S β} (hr : r = .error e)
    (steps : List (Option O)) (b : β) :
    Performs act (none :: steps) b (lift r >>= f) := by
  constructor
  · simp
  · intro _
    exact ⟨e, fun s => bind_error (lift_run_error hr s)⟩

theorem Performs.seq
    {x : InPlace ε S α} {y : InPlace ε S β} {a : α} {b : β}
    (hx : Performs act steps a x) (hy : Performs act steps' b y) :
    Performs act (steps ++ steps') b (x >>= fun _ => y) := by
  constructor
  · intro hcomplete s
    rw [List.mem_append, not_or] at hcomplete
    rw [made_append_of_complete hcomplete.1, applyAll_append, bind_run (hx.returns hcomplete.1 s),
      hy.returns hcomplete.2]
  · intro hstop
    by_cases hfirst : none ∈ steps
    · obtain ⟨e, hthrown⟩ := hx.throws hfirst
      refine ⟨e, fun s => ?_⟩
      rw [made_append_of_stopped hfirst]
      exact bind_error (hthrown s)
    · obtain ⟨e, hthrown⟩ := hy.throws ((List.mem_append.1 hstop).resolve_left hfirst)
      refine ⟨e, fun s => ?_⟩
      rw [made_append_of_complete hfirst, applyAll_append, bind_run (hx.returns hfirst s), hthrown]

/-- A value that is read for one computation only. -/
theorem Performs.lift_seq
    {r : Except ε α} {f : α → InPlace ε S Unit} {rest : InPlace ε S β} {b : β}
    (hf : Performs act steps () (lift r >>= f)) (hrest : Performs act steps' b rest) :
    Performs act (steps ++ steps') b (lift r >>= fun a => f a >>= fun _ => rest) := by
  rw [← bind_assoc]
  exact Performs.seq hf hrest

theorem Performs.forM
    {xs : List β} {f : β → InPlace ε S PUnit} {steps : β → List (Option O)}
    (hf : ∀ x, Performs act (steps x) PUnit.unit (f x)) :
    Performs act (xs.flatMap steps) PUnit.unit (xs.forM f) := by
  induction xs with
  | nil => exact Performs.pure PUnit.unit
  | cons x xs ih => exact Performs.seq (hf x) ih

/-- A block that catches every exception makes the same updates and always returns. -/
theorem Performs.caught
    {x : InPlace ε S α} {a b : α} (hx : Performs act steps a x) (s : S) :
    tryCatch x (fun _ => Pure.pure b) s =
      .ok (if completes steps then a else b) (applyAll act (made steps) s) := by
  by_cases hstop : none ∈ steps
  · obtain ⟨e, hthrown⟩ := hx.throws hstop
    rw [if_neg (fun hcomplete => completes_iff.1 hcomplete hstop)]
    simp only [MonadExcept.tryCatch, tryCatchThe, MonadExceptOf.tryCatch, EStateM.tryCatch,
      hthrown s]
    rfl
  · rw [if_pos (completes_iff.2 hstop)]
    exact tryCatch_run (hx.returns hstop s)

/-- A block whose exceptions are dropped does not stop what follows it. -/
theorem Performs.ignored {x : InPlace ε S Unit} (hx : Performs act steps () x) :
    Performs act ((made steps).map some) () (tryCatch x fun _ => Pure.pure ()) := by
  constructor
  · intro _ s
    rw [hx.caught, made_map_some, ite_self]
  · simp

end Performs

section Effects

variable {act : O → S → S} {holds : S → O → Prop}
  (hmade : ∀ op s, holds (act op s) op) (hkept : ∀ op op' s, holds s op → holds (act op' s) op)

include hkept in
theorem applyAll_keeps {op : O} {s : S} (hop : holds s op) (ops : List O) :
    holds (applyAll act ops s) op := by
  induction ops generalizing s with
  | nil => exact hop
  | cons op' ops ih => exact ih (hkept op op' s hop)

include hmade hkept in
/-- What each update brings about holds after all of them. -/
theorem applyAll_holds {op : O} {ops : List O} (hop : op ∈ ops) (s : S) :
    holds (applyAll act ops s) op := by
  induction ops generalizing s with
  | nil => simp at hop
  | cons op' ops ih =>
      rcases List.mem_cons.1 hop with rfl | hrest
      · exact applyAll_keeps hkept (hmade op s) ops
      · exact ih hrest (act op' s)

include hmade hkept in
/-- Updates leave a state as it is exactly when each of them holds of it already. -/
theorem applyAll_eq_self_iff
    (hidle : ∀ op s, holds s op → act op s = s) {ops : List O} {s : S} :
    applyAll act ops s = s ↔ ∀ op ∈ ops, holds s op := by
  constructor
  · intro hself op hop
    rw [← hself]
    exact applyAll_holds hmade hkept hop s
  · intro hholds
    induction ops with
    | nil => rfl
    | cons op ops ih =>
        rw [applyAll_cons, hidle op s (hholds op (by simp))]
        exact ih fun op' hop' => hholds op' (List.mem_cons_of_mem _ hop')

end Effects

/-! ## Settling -/

/-- Up to the equivalence, updates commute and a repeated one changes nothing. -/
structure Settles (same : S → S → Prop) (act : O → S → S) : Prop where
  equivalence : Equivalence same
  congr : ∀ op {s t}, same s t → same (act op s) (act op t)
  comm : ∀ op op' s, same (act op (act op' s)) (act op' (act op s))
  idem : ∀ op s, same (act op (act op s)) (act op s)

namespace Settles

variable {same : S → S → Prop} {act : O → S → S}

theorem applyAll_congr (h : Settles same act) (ops : List O) {s t : S} (hst : same s t) :
    same (applyAll act ops s) (applyAll act ops t) := by
  induction ops generalizing s t with
  | nil => exact hst
  | cons op ops ih => exact ih (h.congr op hst)

theorem applyAll_perm (h : Settles same act) {ops ops' : List O} (hperm : ops.Perm ops') (s : S) :
    same (applyAll act ops s) (applyAll act ops' s) := by
  induction hperm generalizing s with
  | nil => exact h.equivalence.refl s
  | cons op _ ih => exact ih (act op s)
  | swap op op' ops => exact h.applyAll_congr ops (h.comm op op' s)
  | trans _ _ ih ih' => exact h.equivalence.trans (ih s) (ih' s)

theorem applyAll_comm (h : Settles same act) (ops ops' : List O) (s : S) :
    same (applyAll act ops (applyAll act ops' s)) (applyAll act ops' (applyAll act ops s)) := by
  rw [← applyAll_append, ← applyAll_append]
  exact h.applyAll_perm List.perm_append_comm s

/-- An update that is made anyway may be made once more. -/
theorem applyAll_of_mem (h : Settles same act) {op : O} {ops : List O} (hop : op ∈ ops) (s : S) :
    same (applyAll act (op :: ops) s) (applyAll act ops s) := by
  obtain ⟨rest, hrest⟩ : ∃ rest, ops.Perm (op :: rest) := by
    obtain ⟨before, after, rfl⟩ := List.append_of_mem hop
    exact ⟨before ++ after, List.perm_middle⟩
  have htwice : same (applyAll act (op :: ops) s) (applyAll act (op :: op :: rest) s) :=
    h.applyAll_perm (hrest.cons op) s
  have honce : same (applyAll act (op :: op :: rest) s) (applyAll act (op :: rest) s) :=
    h.applyAll_congr rest (h.idem op s)
  exact h.equivalence.trans htwice
    (h.equivalence.trans honce (h.equivalence.symm (h.applyAll_perm hrest s)))

theorem applyAll_twice (h : Settles same act) (ops : List O) (s : S) :
    same (applyAll act ops (applyAll act ops s)) (applyAll act ops s) := by
  have hpart : ∀ part : List O, part ⊆ ops →
      same (applyAll act (part ++ ops) s) (applyAll act ops s) := by
    intro part hsub
    induction part with
    | nil => exact h.equivalence.refl _
    | cons op part ih =>
        rw [List.cons_subset] at hsub
        have hmem : op ∈ part ++ ops := List.mem_append_right _ hsub.1
        exact h.equivalence.trans (h.applyAll_of_mem hmem s) (ih hsub.2)
  rw [← applyAll_append]
  exact hpart ops fun _ hop => hop

end Settles

end CommutingUpdates
