import ArtdaqDatabase.InPlaceUpdate
import Mathlib.Data.Set.Basic
import Mathlib.Data.List.Perm.Basic

/-!
# Batches that stop at the first failure

Each member of a batch gives some points to a set.  A member that is not ready stops
the batch before it gives any, a set that is not accepted stops it afterwards, and
what was given stays given.  An implementation that takes the members one by one and
throws at the first failure runs the batch on the points that its state stands for.
-/

namespace BatchUpdate

open InPlaceUpdate

variable {M P : Type*}

/-- What the members of a batch change, and what they need. -/
structure Batch (M P : Type*) where
  change : M → Set P
  ready : M → Prop
  accepts : Set P → Prop

namespace Batch

variable (b : Batch M P)

/-- The points that some member changes. -/
def changes (ms : List M) : Set P :=
  {p | ∃ m ∈ ms, p ∈ b.change m}

@[simp]
theorem changes_nil : b.changes [] = ∅ := by
  simp [changes]

@[simp]
theorem changes_cons (m : M) (ms : List M) : b.changes (m :: ms) = b.change m ∪ b.changes ms := by
  ext p
  simp [changes]

theorem changes_perm {ms ms' : List M} (hperm : ms.Perm ms') : b.changes ms = b.changes ms' := by
  ext p
  simp only [changes, Set.mem_ofPred_eq, hperm.mem_iff]

/-- The member gets through. -/
def Passes (D : Set P) (m : M) : Prop :=
  b.ready m ∧ b.accepts (D ∪ b.change m)

/-- The members get through one after the other. -/
def PassesAll : Set P → List M → Prop
  | _, [] => True
  | D, m :: ms => b.Passes D m ∧ PassesAll (D ∪ b.change m) ms

/-- The batch from a set: whether all members get through, and the set at the end. -/
inductive Run : Set P → List M → Bool → Set P → Prop
  | done (D : Set P) : Run D [] true D
  | unready {D : Set P} {m : M} {ms : List M} (hready : ¬ b.ready m) : Run D (m :: ms) false D
  | refused {D : Set P} {m : M} {ms : List M} (hready : b.ready m)
      (haccepts : ¬ b.accepts (D ∪ b.change m)) : Run D (m :: ms) false (D ∪ b.change m)
  | step {D D' : Set P} {m : M} {ms : List M} {through : Bool} (hpasses : b.Passes D m)
      (hrest : Run (D ∪ b.change m) ms through D') : Run D (m :: ms) through D'

theorem run_through_iff {D D' : Set P} {ms : List M} :
    b.Run D ms true D' ↔ b.PassesAll D ms ∧ D' = D ∪ b.changes ms := by
  induction ms generalizing D with
  | nil =>
      constructor
      · rintro ⟨⟩
        simp [PassesAll]
      · rintro ⟨-, rfl⟩
        simpa using Run.done D
  | cons m ms ih =>
      rw [PassesAll, changes_cons, ← Set.union_assoc]
      constructor
      · rintro (_ | _ | _ | ⟨hpasses, hrest⟩)
        obtain ⟨hall, rfl⟩ := ih.1 hrest
        exact ⟨⟨hpasses, hall⟩, rfl⟩
      · rintro ⟨⟨hpasses, hall⟩, rfl⟩
        exact Run.step hpasses (ih.2 ⟨hall, rfl⟩)

theorem not_passesAll_of_run {D D' : Set P} {ms : List M} (hrun : b.Run D ms false D') :
    ¬ b.PassesAll D ms := by
  induction ms generalizing D with
  | nil => cases hrun
  | cons m ms ih =>
      intro hpasses
      cases hrun with
      | unready hready => exact hready hpasses.1.1
      | refused hready haccepts => exact haccepts hpasses.1.2
      | step hfirst hrest => exact ih hrest hpasses.2

/-- The batch without a stop, as when each member is a task of its own: whether each got
through, and the set at the end. -/
inductive RunAll : Set P → List M → List Bool → Set P → Prop
  | done (D : Set P) : RunAll D [] [] D
  | unready {D D' : Set P} {m : M} {ms : List M} {oks : List Bool} (hready : ¬ b.ready m)
      (hrest : RunAll D ms oks D') : RunAll D (m :: ms) (false :: oks) D'
  | refused {D D' : Set P} {m : M} {ms : List M} {oks : List Bool} (hready : b.ready m)
      (haccepts : ¬ b.accepts (D ∪ b.change m)) (hrest : RunAll (D ∪ b.change m) ms oks D') :
      RunAll D (m :: ms) (false :: oks) D'
  | step {D D' : Set P} {m : M} {ms : List M} {oks : List Bool} (hpasses : b.Passes D m)
      (hrest : RunAll (D ∪ b.change m) ms oks D') : RunAll D (m :: ms) (true :: oks) D'

variable {b} in
theorem RunAll.length_eq {D D' : Set P} {ms : List M} {oks : List Bool}
    (hrun : b.RunAll D ms oks D') : oks.length = ms.length := by
  induction hrun with
  | done D => rfl
  | unready hready hrest ih => simp [ih]
  | refused hready haccepts hrest ih => simp [ih]
  | step hpasses hrest ih => simp [ih]

variable {b} in
/-- All tasks get through exactly if the members do one after the other. -/
theorem RunAll.through_iff {D D' : Set P} {ms : List M} {oks : List Bool}
    (hrun : b.RunAll D ms oks D') : (∀ ok ∈ oks, ok = true) ↔ b.PassesAll D ms := by
  induction hrun with
  | done D => simp [PassesAll]
  | unready hready hrest ih =>
      constructor
      · intro hall
        exact absurd (hall false List.mem_cons_self) Bool.false_ne_true
      · exact fun hpasses => absurd hpasses.1.1 hready
  | refused hready haccepts hrest ih =>
      constructor
      · intro hall
        exact absurd (hall false List.mem_cons_self) Bool.false_ne_true
      · exact fun hpasses => absurd hpasses.1.2 haccepts
  | step hpasses hrest ih =>
      rw [List.forall_mem_cons, ih, PassesAll]
      simp [hpasses]

variable {b} in
theorem RunAll.end_eq {D D' : Set P} {ms : List M} {oks : List Bool}
    (hrun : b.RunAll D ms oks D') (hpasses : b.PassesAll D ms) : D' = D ∪ b.changes ms := by
  induction hrun with
  | done D => simp
  | unready hready hrest ih => exact absurd hpasses.1.1 hready
  | refused hready haccepts hrest ih => exact absurd hpasses.1.2 haccepts
  | step hfirst hrest ih => rw [changes_cons, ← Set.union_assoc, ih hpasses.2]

/-! ### Orders -/

section Orders

variable {b} {lower upper : Set P → Prop} (haccepts : ∀ D, b.accepts D ↔ lower D ∧ upper D)
  (hlower : ∀ D D', D ⊆ D' → lower D → lower D') (hupper : ∀ D D', D ⊆ D' → upper D' → upper D)
include haccepts hlower hupper

/-- What is accepted at the end is accepted before, except that it may not be enough
after the first member. -/
theorem passesAll_cons_iff {D : Set P} {m : M} {ms : List M} :
    b.PassesAll D (m :: ms) ↔
      (∀ m' ∈ m :: ms, b.ready m') ∧ upper (D ∪ b.changes (m :: ms)) ∧
        lower (D ∪ b.change m) := by
  induction ms generalizing D m with
  | nil =>
      simp only [PassesAll, Passes, haccepts, List.forall_mem_singleton, changes_cons, changes_nil,
        Set.union_empty]
      tauto
  | cons next ms ih =>
      have hready : (∀ m' ∈ m :: next :: ms, b.ready m') ↔
          b.ready m ∧ ∀ m' ∈ next :: ms, b.ready m' := List.forall_mem_cons
      rw [PassesAll, ih, b.changes_cons m, ← Set.union_assoc, Passes, haccepts, hready]
      constructor
      · rintro ⟨⟨hready, hfirst, -⟩, hrest, hend, -⟩
        exact ⟨⟨hready, hrest⟩, hend, hfirst⟩
      · rintro ⟨⟨hready, hrest⟩, hend, hfirst⟩
        refine ⟨⟨hready, hfirst, ?_⟩, hrest, hend, ?_⟩
        · exact hupper _ _ Set.subset_union_left hend
        · exact hlower _ _ Set.subset_union_left hfirst

/-- Some order of the members gets through exactly if some member can be the first. -/
theorem exists_perm_passesAll_iff {D : Set P} {ms : List M} (hms : ms ≠ []) :
    (∃ ms', ms'.Perm ms ∧ b.PassesAll D ms') ↔
      (∀ m ∈ ms, b.ready m) ∧ upper (D ∪ b.changes ms) ∧ ∃ m ∈ ms, lower (D ∪ b.change m) := by
  constructor
  · rintro ⟨ms', hperm, hpasses⟩
    cases ms' with
    | nil => exact absurd hperm.symm.eq_nil hms
    | cons m ms' =>
        rw [passesAll_cons_iff haccepts hlower hupper, b.changes_perm hperm] at hpasses
        obtain ⟨hready, hend, hfirst⟩ := hpasses
        exact ⟨fun m' hm' => hready m' (hperm.mem_iff.2 hm'), hend, m,
          hperm.mem_iff.1 List.mem_cons_self, hfirst⟩
  · rintro ⟨hready, hend, m, hm, hfirst⟩
    obtain ⟨before, rest, rfl⟩ := List.append_of_mem hm
    have hperm : (m :: (before ++ rest)).Perm (before ++ m :: rest) := List.perm_middle.symm
    refine ⟨_, hperm, ?_⟩
    rw [passesAll_cons_iff haccepts hlower hupper, b.changes_perm hperm]
    exact ⟨fun m' hm' => hready m' (hperm.mem_iff.1 hm'), hend, hfirst⟩

/-- Every order of the members gets through as they do exactly if, once all else is
right, they can be the first all alike. -/
theorem passesAll_perm_iff {D : Set P} {ms : List M} :
    (∀ ms', ms'.Perm ms → (b.PassesAll D ms' ↔ b.PassesAll D ms)) ↔
      ((∀ m ∈ ms, b.ready m) → upper (D ∪ b.changes ms) →
        ∀ m ∈ ms, ∀ m' ∈ ms, lower (D ∪ b.change m) → lower (D ∪ b.change m')) := by
  constructor
  · intro hsame hready hend m hm m' hm' hfirst
    obtain ⟨before, rest, rfl⟩ := List.append_of_mem hm
    have hperm : (m :: (before ++ rest)).Perm (before ++ m :: rest) := List.perm_middle.symm
    have hpasses : b.PassesAll D (m :: (before ++ rest)) := by
      rw [passesAll_cons_iff haccepts hlower hupper, b.changes_perm hperm]
      exact ⟨fun m'' hm'' => hready m'' (hperm.mem_iff.1 hm''), hend, hfirst⟩
    rw [hsame _ hperm] at hpasses
    obtain ⟨before', rest', hsplit⟩ := List.append_of_mem hm'
    have hperm' : (m' :: (before' ++ rest')).Perm (before ++ m :: rest) := by
      rw [hsplit]
      exact List.perm_middle.symm
    rw [← hsame _ hperm', passesAll_cons_iff haccepts hlower hupper] at hpasses
    exact hpasses.2.2
  · intro halike ms' hperm
    cases ms' with
    | nil => rw [hperm.symm.eq_nil]
    | cons m' ms' =>
        cases ms with
        | nil => exact absurd hperm.eq_nil (List.cons_ne_nil m' ms')
        | cons m ms =>
            have hm : m ∈ m :: ms := List.mem_cons_self
            have hm' : m' ∈ m :: ms := hperm.mem_iff.1 List.mem_cons_self
            simp only [passesAll_cons_iff haccepts hlower hupper, b.changes_perm hperm,
              hperm.mem_iff]
            constructor
            · rintro ⟨hready, hend, hfirst⟩
              exact ⟨hready, hend, halike hready hend m' hm' m hm hfirst⟩
            · rintro ⟨hready, hend, hfirst⟩
              exact ⟨hready, hend, halike hready hend m hm m' hm' hfirst⟩

end Orders

end Batch

/-! ## Implementations -/

section Implements

variable {ε σ α : Type} {T R : Type*}

/-- A failure that is forgotten leaves what was done. -/
theorem forgiven_run (x : InPlace ε σ Unit) (s : σ) :
    (tryCatch x fun _ => pure ()) s = .ok () (after x s) := by
  rw [after]
  cases hx : x s with
  | ok a s' => simp [tryCatch, tryCatchThe, MonadExceptOf.tryCatch, EStateM.tryCatch, hx]
  | error e s' =>
      simp [tryCatch, tryCatchThe, MonadExceptOf.tryCatch, EStateM.tryCatch, hx, pure,
        EStateM.pure, EStateM.Backtrackable.restore, EStateM.dummyRestore]

theorem after_bind_pure (x : InPlace ε σ α) (s : σ) :
    after (x >>= fun _ => pure ()) s = after x s := by
  rw [after, after]
  cases hx : x s with
  | ok a s' => rw [bind_run hx]; rfl
  | error e s' => rw [bind_error hx]

/-- A computation that answers whether it threw, with a message. -/
def answered {R : Type} (message : Except ε α → R) (x : InPlace ε σ α) : InPlace ε σ (Bool × R) :=
  fun s =>
    match x s with
    | .ok a s' => .ok (true, message (.ok a)) s'
    | .error e s' => .ok (false, message (.error e)) s'

theorem answered_run {R : Type} (message : Except ε α → R) (x : InPlace ε σ α) (s : σ) :
    ∃ answer, answered message x s = .ok answer (after x s) := by
  rw [after, answered]
  cases x s with
  | ok a s' => exact ⟨_, rfl⟩
  | error e s' => exact ⟨_, rfl⟩

variable (b : Batch M P)

/-- What a computation does with one member: it throws exactly where the batch stops,
and its state stands for the points of the batch. -/
structure Implements (Sim : σ → Set P → Prop) (x : InPlace ε σ α) (m : M) : Prop where
  passes : ∀ s D, Sim s D → b.Passes D m →
    ∃ a s', x s = .ok a s' ∧ Sim s' (D ∪ b.change m)
  refused : ∀ s D, Sim s D → b.ready m → ¬ b.accepts (D ∪ b.change m) →
    ∃ e s', x s = .error e s' ∧ Sim s' (D ∪ b.change m)
  unready : ∀ s D, Sim s D → ¬ b.ready m → ∃ e s', x s = .error e s' ∧ Sim s' D

variable {b} {Sim : σ → Set P → Prop}

theorem Implements.forget {x : InPlace ε σ α} {m : M} (hx : Implements b Sim x m) :
    Implements b Sim (x >>= fun _ => pure ()) m where
  passes s D hs hpasses := by
    obtain ⟨a, s', hrun, hs'⟩ := hx.passes s D hs hpasses
    exact ⟨(), s', bind_run hrun, hs'⟩
  refused s D hs hready haccepts := by
    obtain ⟨e, s', hrun, hs'⟩ := hx.refused s D hs hready haccepts
    exact ⟨e, s', bind_error hrun, hs'⟩
  unready s D hs hready := by
    obtain ⟨e, s', hrun, hs'⟩ := hx.unready s D hs hready
    exact ⟨e, s', bind_error hrun, hs'⟩

/-- A computation for each member, one after the other, runs the batch. -/
theorem run_forM
    {act : T → InPlace ε σ Unit} {member : T → M} {ts : List T}
    (hact : ∀ t ∈ ts, Implements b Sim (act t) (member t)) {s : σ} {D : Set P} (hs : Sim s D) :
    (∃ s' D', ts.forM act s = .ok () s' ∧ Sim s' D' ∧ b.Run D (ts.map member) true D') ∨
      ∃ e s' D', ts.forM act s = .error e s' ∧ Sim s' D' ∧ b.Run D (ts.map member) false D' := by
  induction ts generalizing s D with
  | nil => exact Or.inl ⟨s, D, rfl, hs, Batch.Run.done D⟩
  | cons t ts ih =>
      have hrun : (t :: ts).forM act s = (act t >>= fun _ => ts.forM act) s := rfl
      have ht := hact t List.mem_cons_self
      by_cases hready : b.ready (member t)
      · by_cases haccepts : b.accepts (D ∪ b.change (member t))
        · obtain ⟨_, s₁, hfirst, hs₁⟩ := ht.passes s D hs ⟨hready, haccepts⟩
          rw [hrun, bind_run hfirst]
          rcases ih (fun t ht => hact t (List.mem_cons_of_mem _ ht)) hs₁ with
            ⟨s', D', hrest, hs', hbatch⟩ | ⟨e, s', D', hrest, hs', hbatch⟩
          · exact Or.inl ⟨s', D', hrest, hs', Batch.Run.step ⟨hready, haccepts⟩ hbatch⟩
          · exact Or.inr ⟨e, s', D', hrest, hs', Batch.Run.step ⟨hready, haccepts⟩ hbatch⟩
        · obtain ⟨e, s', hfirst, hs'⟩ := ht.refused s D hs hready haccepts
          exact Or.inr ⟨e, s', _, hrun.trans (bind_error hfirst), hs',
            Batch.Run.refused hready haccepts⟩
      · obtain ⟨e, s', hfirst, hs'⟩ := ht.unready s D hs hready
        exact Or.inr ⟨e, s', D, hrun.trans (bind_error hfirst), hs', Batch.Run.unready hready⟩

/-- A task for each member, in any order that the list has, runs all of the batch. -/
theorem run_mapM_answered
    {R T : Type} {message : Except ε α → R} {act : T → InPlace ε σ α} {member : T → M} {ts : List T}
    (hact : ∀ t ∈ ts, Implements b Sim (act t) (member t)) {s : σ} {D : Set P} (hs : Sim s D) :
    ∃ answers s' D', ts.mapM (fun t => answered message (act t)) s = .ok answers s' ∧ Sim s' D' ∧
      b.RunAll D (ts.map member) (answers.map Prod.fst) D' := by
  induction ts generalizing s D with
  | nil => exact ⟨[], s, D, rfl, hs, Batch.RunAll.done D⟩
  | cons t ts ih =>
      have hrest : ∀ t ∈ ts, Implements b Sim (act t) (member t) :=
        fun t ht => hact t (List.mem_cons_of_mem _ ht)
      have ht := hact t List.mem_cons_self
      have hcons : ∀ {answer : Bool × R} {answers : List (Bool × R)} {s₁ s' : σ},
          answered message (act t) s = .ok answer s₁ →
          ts.mapM (fun t => answered message (act t)) s₁ = .ok answers s' →
          (t :: ts).mapM (fun t => answered message (act t)) s = .ok (answer :: answers) s' := by
        intro answer answers s₁ s' hfirst hothers
        rw [List.mapM_cons, bind_run hfirst, bind_run hothers]
        rfl
      by_cases hready : b.ready (member t)
      · by_cases haccepts : b.accepts (D ∪ b.change (member t))
        · obtain ⟨a, s₁, hfirst, hs₁⟩ := ht.passes s D hs ⟨hready, haccepts⟩
          obtain ⟨answers, s', D', hothers, hs', hbatch⟩ := ih hrest hs₁
          have hanswer : answered message (act t) s = .ok (true, message (.ok a)) s₁ := by
            simp only [answered, hfirst]
          exact ⟨_, s', D', hcons hanswer hothers, hs',
            Batch.RunAll.step ⟨hready, haccepts⟩ hbatch⟩
        · obtain ⟨e, s₁, hfirst, hs₁⟩ := ht.refused s D hs hready haccepts
          obtain ⟨answers, s', D', hothers, hs', hbatch⟩ := ih hrest hs₁
          have hanswer : answered message (act t) s = .ok (false, message (.error e)) s₁ := by
            simp only [answered, hfirst]
          exact ⟨_, s', D', hcons hanswer hothers, hs',
            Batch.RunAll.refused hready haccepts hbatch⟩
      · obtain ⟨e, s₁, hfirst, hs₁⟩ := ht.unready s D hs hready
        obtain ⟨answers, s', D', hothers, hs', hbatch⟩ := ih hrest hs₁
        have hanswer : answered message (act t) s = .ok (false, message (.error e)) s₁ := by
          simp only [answered, hfirst]
        exact ⟨_, s', D', hcons hanswer hothers, hs', Batch.RunAll.unready hready hbatch⟩

end Implements

end BatchUpdate
