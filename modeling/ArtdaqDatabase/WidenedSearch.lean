import Mathlib.Order.Basic
import Mathlib.Data.List.Forall2
import Mathlib.Data.Set.Function

/-!
# Searches that widen

A search asks for the records that meet all of its criteria, and falls back on those
that meet any of them where there are none.  Of what it finds the record with the
greatest key is taken.  Two sets of records whose related members meet the same
criteria are searched alike.
-/

namespace WidenedSearch

variable {R R' K : Type}

/-- The record meets every criterion. -/
def Exact (criteria : List (R → Prop)) (r : R) : Prop :=
  ∀ c ∈ criteria, c r

/-- The record is one that the search finds. -/
def Finds (S : Set R) (criteria : List (R → Prop)) (r : R) : Prop :=
  r ∈ S ∧ (Exact criteria r ∨ (∀ s ∈ S, ¬ Exact criteria s) ∧ ∃ c ∈ criteria, c r)

theorem finds_nil {S : Set R} {r : R} : Finds S [] r ↔ r ∈ S := by
  simp [Finds, Exact]

theorem finds_singleton {S : Set R} {c : R → Prop} {r : R} : Finds S [c] r ↔ r ∈ S ∧ c r := by
  simp only [Finds, Exact, List.mem_singleton, forall_eq, exists_eq_left]
  tauto

theorem finds_pair {S : Set R} {c c' : R → Prop} {r : R} :
    Finds S [c, c'] r ↔
      r ∈ S ∧ ((c r ∧ c' r) ∨ (∀ s ∈ S, ¬ (c s ∧ c' s)) ∧ (c r ∨ c' r)) := by
  simp [Finds, Exact]

section Greatest

variable [LinearOrder K] (key : R → K) (S : Set R) (criteria : List (R → Prop))

/-- The record is found, and none that is found has a greater key. -/
def Greatest (r : R) : Prop :=
  Finds S criteria r ∧ ∀ s, Finds S criteria s → key s ≤ key r

open Classical in
/-- The record that is taken. -/
noncomputable def select : Option R :=
  if h : ∃ r, Greatest key S criteria r then some h.choose else none

variable {key S criteria}

theorem Greatest.eq (hkey : Set.InjOn key S) {r s : R} (hr : Greatest key S criteria r)
    (hs : Greatest key S criteria s) : r = s :=
  hkey hr.1.1 hs.1.1 (le_antisymm (hs.2 r hr.1) (hr.2 s hs.1))

theorem greatest_of_select {r : R} (hselect : select key S criteria = some r) :
    Greatest key S criteria r := by
  unfold select at hselect
  split at hselect
  · rename_i h
    rw [Option.some.injEq] at hselect
    rw [← hselect]
    exact h.choose_spec
  · cases hselect

theorem select_eq_some (hkey : Set.InjOn key S) {r : R} (hr : Greatest key S criteria r) :
    select key S criteria = some r := by
  have hexists : ∃ r, Greatest key S criteria r := ⟨r, hr⟩
  rw [select, dif_pos hexists]
  exact congrArg some (hexists.choose_spec.eq hkey hr)

theorem select_eq_none (hnone : ∀ r, ¬ Finds S criteria r) : select key S criteria = none := by
  rw [select, dif_neg]
  rintro ⟨r, hr⟩
  exact hnone r hr.1

end Greatest

section Related

variable {S : Set R} {S' : Set R'} {criteria : List (R → Prop)} {criteria' : List (R' → Prop)}
  {Q : R → R' → Prop} (hright : ∀ r ∈ S, ∃ r' ∈ S', Q r r')
  (hleft : ∀ r' ∈ S', ∃ r ∈ S, Q r r')
  (hcriteria : List.Forall₂ (fun c c' => ∀ r r', Q r r' → (c r ↔ c' r')) criteria criteria')

include hcriteria in
theorem exact_iff_of_related {r : R} {r' : R'} (hrel : Q r r') :
    Exact criteria r ↔ Exact criteria' r' := by
  unfold Exact
  induction hcriteria with
  | nil => simp
  | cons hc _ ih => simp [hc r r' hrel, ih]

include hcriteria in
theorem exists_iff_of_related {r : R} {r' : R'} (hrel : Q r r') :
    (∃ c ∈ criteria, c r) ↔ ∃ c ∈ criteria', c r' := by
  induction hcriteria with
  | nil => simp
  | cons hc _ ih => simp [hc r r' hrel, ih]

include hright hleft hcriteria

/-- Related records are found together. -/
theorem finds_iff_of_related {r : R} {r' : R'} (hr : r ∈ S) (hr' : r' ∈ S') (hrel : Q r r') :
    Finds S criteria r ↔ Finds S' criteria' r' := by
  have hexact {r : R} {r' : R'} (hrel : Q r r') : Exact criteria r ↔ Exact criteria' r' :=
    exact_iff_of_related hcriteria hrel
  have hnone : (∀ s ∈ S, ¬ Exact criteria s) ↔ ∀ s' ∈ S', ¬ Exact criteria' s' := by
    constructor
    · intro h s' hs'
      obtain ⟨s, hs, hrel⟩ := hleft s' hs'
      rw [← hexact hrel]
      exact h s hs
    · intro h s hs
      obtain ⟨s', hs', hrel⟩ := hright s hs
      rw [hexact hrel]
      exact h s' hs'
  rw [Finds, Finds, hexact hrel, hnone, exists_iff_of_related hcriteria hrel]
  simp [hr, hr']

end Related

end WidenedSearch
