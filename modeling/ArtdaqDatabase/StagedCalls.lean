import Mathlib.Tactic

/-!
# Calls in stages

A pool of calls works on one shared state.  Each call passes its checks one at a
time, each on the state of its own moment, and then acts once; between its stages
other calls run.  Where all checks of a call would pass again at the moment it
acts, the interleaving has the effect and the outcomes of the calls one after the
other, in the order in which they acted or failed.
-/

namespace StagedCalls

variable {σ ι : Type}

/-- Where a call is: the checks it still has to pass, or how it ended. -/
inductive Phase (σ : Type) where
  | pending (rest : List (σ → Bool))
  | finished (succeeded : Bool)

/-- The shared state and the calls on it. -/
structure Pool (σ ι : Type) where
  shared : σ
  phase : ι → Phase σ

/-- What every call of a pool checks and does. -/
structure Calls (σ ι : Type) where
  checks : ι → List (σ → Bool)
  act : ι → σ → σ

variable (calls : Calls σ ι)

def Pool.start (s : σ) : Pool σ ι :=
  ⟨s, fun i => .pending (calls.checks i)⟩

/-- The next stage of one call. -/
def Pool.step [DecidableEq ι] (pool : Pool σ ι) (i : ι) : Pool σ ι :=
  match pool.phase i with
  | .pending (check :: rest) =>
      { pool with
        phase := Function.update pool.phase i <|
          if check pool.shared then .pending rest else .finished false }
  | .pending [] =>
      { shared := calls.act i pool.shared
        phase := Function.update pool.phase i (.finished true) }
  | .finished _ => pool

/-- Every check of the call passes. -/
def Passes (i : ι) (s : σ) : Prop :=
  ∀ check ∈ calls.checks i, check s = true

/-- A call at once: all its checks and its action on one state. -/
def callAtOnce (s : σ) (i : ι) : σ × Bool :=
  if (calls.checks i).all (· s) then (calls.act i s, true) else (s, false)

/-- The calls one after the other, with their outcomes. -/
def serial : σ → List ι → σ × List (ι × Bool)
  | s, [] => (s, [])
  | s, i :: order =>
      let done := callAtOnce calls s i
      let rest := serial done.1 order
      (rest.1, (i, done.2) :: rest.2)

theorem serial_append_singleton (s : σ) (order : List ι) (i : ι) :
    serial calls s (order ++ [i]) =
      ((callAtOnce calls (serial calls s order).1 i).1,
        (serial calls s order).2 ++ [(i, (callAtOnce calls (serial calls s order).1 i).2)]) := by
  induction order generalizing s with
  | nil => rfl
  | cons j order ih => simp only [List.cons_append, serial, ih]

/-- The pool is as if its finished calls had run one after the other. -/
def Serialized (s : σ) (pool : Pool σ ι) : Prop :=
  ∃ outcomes : List (ι × Bool),
    (outcomes.map Prod.fst).Nodup ∧
      (∀ i b, (i, b) ∈ outcomes ↔ pool.phase i = .finished b) ∧
      serial calls s (outcomes.map Prod.fst) = (pool.shared, outcomes)

variable {calls}

theorem callAtOnce_of_passes {s : σ} {i : ι} (hpasses : Passes calls i s) :
    callAtOnce calls s i = (calls.act i s, true) := by
  rw [callAtOnce, if_pos]
  exact List.all_eq_true.2 hpasses

theorem callAtOnce_of_fails
    {s : σ} {i : ι} {check : σ → Bool} (hcheck : check ∈ calls.checks i)
    (hfails : check s = false) :
    callAtOnce calls s i = (s, false) := by
  rw [callAtOnce, if_neg]
  intro hall
  have := List.all_eq_true.1 hall check hcheck
  simp [hfails] at this

theorem serialized_start (s : σ) : Serialized calls s (Pool.start calls s) := by
  refine ⟨[], List.nodup_nil, fun i b => ?_, rfl⟩
  simp [Pool.start]

/-- The checks that a call has left are checks of the call. -/
def Suffixes (calls : Calls σ ι) (pool : Pool σ ι) : Prop :=
  ∀ i rest, pool.phase i = .pending rest → rest <:+ calls.checks i

theorem suffixes_start (s : σ) : Suffixes calls (Pool.start calls s) := by
  intro i rest hrest
  simp only [Pool.start, Phase.pending.injEq] at hrest
  rw [← hrest]

variable [DecidableEq ι]

theorem step_act
    {pool : Pool σ ι} {i : ι} (hphase : pool.phase i = .pending []) :
    pool.step calls i =
      ⟨calls.act i pool.shared, Function.update pool.phase i (.finished true)⟩ := by
  rw [Pool.step, hphase]

theorem step_check
    {pool : Pool σ ι} {i : ι} {check : σ → Bool} {rest : List (σ → Bool)}
    (hphase : pool.phase i = .pending (check :: rest)) :
    pool.step calls i =
      ⟨pool.shared, Function.update pool.phase i
        (if check pool.shared then .pending rest else .finished false)⟩ := by
  rw [Pool.step, hphase]

theorem step_finished
    {pool : Pool σ ι} {i : ι} {b : Bool} (hphase : pool.phase i = .finished b) :
    pool.step calls i = pool := by
  rw [Pool.step, hphase]

theorem suffixes_step
    {pool : Pool σ ι} (hpool : Suffixes calls pool) (i : ι) :
    Suffixes calls (pool.step calls i) := by
  intro j rest hrest
  by_cases hj : j = i
  · subst hj
    cases hphase : pool.phase j with
    | finished b =>
        rw [step_finished hphase] at hrest
        exact hpool j rest hrest
    | pending left =>
        cases left with
        | nil => simp [step_act hphase] at hrest
        | cons check left =>
            rw [step_check hphase] at hrest
            simp only [Function.update_self] at hrest
            split at hrest
            · rw [Phase.pending.injEq] at hrest
              rw [← hrest]
              exact (List.suffix_cons check left).trans (hpool j _ hphase)
            · simp at hrest
  · have hother : (pool.step calls i).phase j = pool.phase j := by
      unfold Pool.step
      split <;> simp [Function.update_of_ne hj]
    rw [hother] at hrest
    exact hpool j rest hrest

/-- A call that ends is the next one of the serial order. -/
theorem serialized_finish
    {s : σ} {pool : Pool σ ι} (hpool : Serialized calls s pool) {i : ι} {rest : List (σ → Bool)}
    (hphase : pool.phase i = .pending rest) {s' : σ} {b : Bool}
    (hcall : callAtOnce calls pool.shared i = (s', b)) :
    Serialized calls s ⟨s', Function.update pool.phase i (.finished b)⟩ := by
  obtain ⟨outcomes, hnodup, hfinished, hserial⟩ := hpool
  have hnew : i ∉ outcomes.map Prod.fst := by
    intro hmem
    obtain ⟨p, hp, rfl⟩ := List.mem_map.1 hmem
    have := (hfinished p.1 p.2).1 hp
    rw [hphase] at this
    simp at this
  refine ⟨outcomes ++ [(i, b)], ?_, fun j c => ?_, ?_⟩
  · rw [List.map_append, List.nodup_append]
    refine ⟨hnodup, by simp, ?_⟩
    intro a ha a' ha'
    simp only [List.map_cons, List.map_nil, List.mem_singleton] at ha'
    rw [ha']
    rintro rfl
    exact hnew ha
  · change (j, c) ∈ outcomes ++ [(i, b)] ↔ Function.update pool.phase i (.finished b) j = _
    rw [List.mem_append, List.mem_singleton, Prod.mk.injEq]
    by_cases hj : j = i
    · subst hj
      have habsent : (j, c) ∉ outcomes := fun h => hnew (List.mem_map_of_mem h)
      simp [habsent, eq_comm]
    · rw [hfinished, Function.update_of_ne hj]
      simp [hj]
  · rw [List.map_append, List.map_cons, List.map_nil, serial_append_singleton, hserial, hcall]

/-- One stage keeps the pool serialized if a call that acts passes its checks. -/
theorem serialized_step
    {s : σ} {pool : Pool σ ι} (hpool : Serialized calls s pool)
    (hsuffixes : Suffixes calls pool) {i : ι}
    (hcurrent : pool.phase i = .pending [] → Passes calls i pool.shared) :
    Serialized calls s (pool.step calls i) := by
  cases hphase : pool.phase i with
  | finished b =>
      rw [step_finished hphase]
      exact hpool
  | pending rest =>
      cases rest with
      | nil =>
          rw [step_act hphase]
          exact serialized_finish hpool hphase (callAtOnce_of_passes (hcurrent hphase))
      | cons check rest =>
          have hcheck : check ∈ calls.checks i :=
            (hsuffixes i _ hphase).subset (by simp)
          rw [step_check hphase]
          cases hresult : check pool.shared with
          | false =>
              exact serialized_finish hpool hphase (callAtOnce_of_fails hcheck hresult)
          | true =>
              obtain ⟨outcomes, hnodup, hfinished, hserial⟩ := hpool
              refine ⟨outcomes, hnodup, fun j b => ?_, hserial⟩
              rw [hfinished]
              by_cases hj : j = i
              · subst hj
                simp [hphase]
              · simp [Function.update_of_ne hj]

end StagedCalls
