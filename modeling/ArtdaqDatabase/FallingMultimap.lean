import Mathlib.Data.List.Pairwise
import Mathlib.Order.Lattice

/-!
# Multimaps with falling keys

A multimap ordered by a reversed comparison keeps its entries by falling key, and
entries with the same key in the order in which they were put there.
-/

namespace FallingMultimap

variable {κ ν : Type*} [LinearOrder κ]

/-- Put an entry behind those with its key. -/
def emplace (entry : κ × ν) : List (κ × ν) → List (κ × ν)
  | [] => [entry]
  | first :: rest =>
      if entry.1 ≤ first.1 then first :: emplace entry rest
      else entry :: first :: rest

/-- Put the entries there one after the other. -/
def emplaceAll (entries : List (κ × ν)) : List (κ × ν) :=
  entries.foldl (fun t entry => emplace entry t) []

/-- The first entry has the greater key, or the same key and the earlier value. -/
def Falls (earlier : ν → ν → Prop) (first second : κ × ν) : Prop :=
  second.1 < first.1 ∨ second.1 = first.1 ∧ earlier first.2 second.2

theorem Falls.key_le {earlier : ν → ν → Prop} {first second : κ × ν}
    (h : Falls earlier first second) : second.1 ≤ first.1 := by
  rcases h with hlt | ⟨heq, -⟩
  · exact hlt.le
  · exact heq.le

theorem emplace_perm (entry : κ × ν) (t : List (κ × ν)) :
    (emplace entry t).Perm (entry :: t) := by
  induction t with
  | nil => exact List.Perm.refl _
  | cons first rest ih =>
      unfold emplace
      split
      · exact (ih.cons first).trans (List.Perm.swap entry first rest)
      · exact List.Perm.refl _

theorem emplace_falls
    {earlier : ν → ν → Prop} {entry : κ × ν} {t : List (κ × ν)}
    (ht : t.Pairwise (Falls earlier)) (hlast : ∀ e ∈ t, earlier e.2 entry.2) :
    (emplace entry t).Pairwise (Falls earlier) := by
  induction t with
  | nil => exact List.pairwise_singleton _ _
  | cons first rest ih =>
      obtain ⟨hfirst, hrest⟩ := List.pairwise_cons.1 ht
      unfold emplace
      split
      · rename_i hle
        refine List.pairwise_cons.2 ⟨fun e he => ?_,
          ih hrest fun e he => hlast e (List.mem_cons_of_mem _ he)⟩
        rcases List.mem_cons.1 ((emplace_perm entry rest).mem_iff.1 he) with rfl | hold
        · rcases hle.lt_or_eq with hlt | heq
          · exact Or.inl hlt
          · exact Or.inr ⟨heq, hlast first (by simp)⟩
        · exact hfirst e hold
      · rename_i hlt
        rw [not_le] at hlt
        refine List.pairwise_cons.2 ⟨fun e he => Or.inl ?_, ht⟩
        rcases List.mem_cons.1 he with rfl | hold
        · exact hlt
        · exact (hfirst e hold).key_le.trans_lt hlt

theorem foldl_emplace
    {earlier : ν → ν → Prop} {entries t : List (κ × ν)} (ht : t.Pairwise (Falls earlier))
    (hnew : entries.Pairwise fun e e' => earlier e.2 e'.2)
    (hlast : ∀ e ∈ t, ∀ entry ∈ entries, earlier e.2 entry.2) :
    (entries.foldl (fun t entry => emplace entry t) t).Pairwise (Falls earlier) ∧
      (entries.foldl (fun t entry => emplace entry t) t).Perm (entries ++ t) := by
  induction entries generalizing t with
  | nil => exact ⟨ht, List.Perm.refl _⟩
  | cons entry rest ih =>
      obtain ⟨hentry, hrest⟩ := List.pairwise_cons.1 hnew
      have ht' : (emplace entry t).Pairwise (Falls earlier) :=
        emplace_falls ht fun e he => hlast e he entry (by simp)
      have hlast' : ∀ e ∈ emplace entry t, ∀ later ∈ rest, earlier e.2 later.2 := by
        intro e he later hlater
        rcases List.mem_cons.1 ((emplace_perm entry t).mem_iff.1 he) with rfl | hold
        · exact hentry later hlater
        · exact hlast e hold later (List.mem_cons_of_mem _ hlater)
      obtain ⟨hfalls, hperm⟩ := ih ht' hrest hlast'
      refine ⟨hfalls, hperm.trans ?_⟩
      exact ((emplace_perm entry t).append_left rest).trans List.perm_middle

/-- The entries fall, and are those that were put there. -/
theorem emplaceAll_falls
    {earlier : ν → ν → Prop} {entries : List (κ × ν)}
    (hentries : entries.Pairwise fun e e' => earlier e.2 e'.2) :
    (emplaceAll entries).Pairwise (Falls earlier) := by
  exact (foldl_emplace List.Pairwise.nil hentries (by simp)).1

theorem emplaceAll_perm (entries : List (κ × ν)) : (emplaceAll entries).Perm entries := by
  have htrivial : entries.Pairwise fun _ _ => True := List.pairwise_of_forall fun _ _ => trivial
  have hnone : ([] : List (κ × ν)).Pairwise (Falls fun _ _ => True) := List.Pairwise.nil
  have hperm := (foldl_emplace hnone htrivial (by simp)).2
  rwa [List.append_nil] at hperm

theorem Falls.asymm {earlier : ν → ν → Prop} [hearlier : Std.Asymm earlier] {e e' : κ × ν}
    (h : Falls earlier e e') : ¬ Falls earlier e' e := by
  rintro (hlt' | ⟨heq', hearlier'⟩)
  · rcases h with hlt | ⟨heq, -⟩
    · exact lt_asymm hlt hlt'
    · exact hlt'.ne heq.symm
  · rcases h with hlt | ⟨-, hafter⟩
    · exact hlt.ne heq'.symm
    · exact hearlier.asymm _ _ hafter hearlier'

/-- The values of falling entries are in the order of a relation exactly if it holds of
any two of which one falls behind the other. -/
theorem pairwise_map_snd_iff
    {earlier : ν → ν → Prop} [Std.Asymm earlier] {t : List (κ × ν)}
    (hfalls : t.Pairwise (Falls earlier)) (r : ν → ν → Prop) :
    (t.map Prod.snd).Pairwise r ↔
      ∀ e ∈ t, ∀ e' ∈ t, Falls earlier e e' → r e.2 e'.2 := by
  rw [List.pairwise_map]
  constructor
  · intro hpairwise
    -- a symmetric relation, so that it may be read off in either order
    have hboth : t.Pairwise fun e e' =>
        (Falls earlier e e' → r e.2 e'.2) ∧ (Falls earlier e' e → r e'.2 e.2) := by
      refine (hpairwise.and hfalls).imp fun ⟨hr, hbefore⟩ => ?_
      exact ⟨fun _ => hr, fun hafter => absurd hafter hbefore.asymm⟩
    have hsymm : Std.Symm fun e e' : κ × ν =>
        (Falls earlier e e' → r e.2 e'.2) ∧ (Falls earlier e' e → r e'.2 e.2) :=
      ⟨fun e e' h => ⟨h.2, h.1⟩⟩
    have hself : ∀ e ∈ t, (Falls earlier e e → r e.2 e.2) ∧ (Falls earlier e e → r e.2 e.2) :=
      fun e _ => ⟨fun h => absurd h h.asymm, fun h => absurd h h.asymm⟩
    intro e he e' he'
    exact (List.Pairwise.forall_of_forall hself hboth he he').1
  · intro hall
    exact hfalls.imp_of_mem fun he he' hbefore => hall _ he _ he' hbefore

end FallingMultimap
