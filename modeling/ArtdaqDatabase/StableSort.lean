import Mathlib.Data.List.Basic
import Mathlib.Order.Defs.LinearOrder
import Mathlib.Tactic

/-!
# Stable sorting

The stable sort of a list by a key: ordered by the key, a rearrangement, and with the
items of each key in the order they had.  These three leave one list.
-/

namespace StableSort

variable {α κ : Type*} [LinearOrder κ] (key : α → κ)

structure IsSorting (xs ys : List α) : Prop where
  ordered : ys.Pairwise fun a b => key a ≤ key b
  perm : ys.Perm xs
  stable : ∀ k, ys.filter (fun a => key a = k) = xs.filter (fun a => key a = k)

def sort (xs : List α) : List α :=
  xs.mergeSort fun a b => key a ≤ key b

theorem decide_trans (a b c : α) (hab : decide (key a ≤ key b)) (hbc : decide (key b ≤ key c)) :
    decide (key a ≤ key c) := by
  simp only [decide_eq_true_eq] at hab hbc ⊢
  exact hab.trans hbc

theorem decide_total (a b : α) : decide (key a ≤ key b) || decide (key b ≤ key a) := by
  simpa using le_total (key a) (key b)

theorem pairwise_sort (xs : List α) : (sort key xs).Pairwise fun a b => key a ≤ key b := by
  have hsorted := List.pairwise_mergeSort (decide_trans key) (decide_total key) xs
  simpa [sort] using hsorted

theorem isSorting_sort (xs : List α) : IsSorting key xs (sort key xs) where
  ordered := pairwise_sort key xs
  perm := List.mergeSort_perm xs _
  stable := by
    intro k
    have hsame : (xs.filter fun a => key a = k).Pairwise
        fun a b => decide (key a ≤ key b) = true := by
      apply List.pairwise_of_forall_mem_list
      intro a ha b hb
      have hka := of_decide_eq_true (List.mem_filter.1 ha).2
      have hkb := of_decide_eq_true (List.mem_filter.1 hb).2
      simp [hka, hkb]
    have hsub := List.sublist_mergeSort (decide_trans key) (decide_total key) hsame
      List.filter_sublist
    have hfiltered := hsub.filter fun a => key a = k
    rw [List.filter_filter] at hfiltered
    simp only [Bool.and_self] at hfiltered
    have hlength : (xs.filter fun a => key a = k).length =
        ((sort key xs).filter fun a => key a = k).length :=
      ((List.mergeSort_perm xs _).filter _).length_eq.symm
    exact (hfiltered.eq_of_length hlength).symm

/-- A list in order is its own sorting. -/
theorem sort_eq_self {xs : List α} (h : xs.Pairwise fun a b => key a ≤ key b) :
    sort key xs = xs :=
  List.mergeSort_of_pairwise (by simpa using h)

variable {key}

/-- The first items have the least key, and the stable order tells which of its items is
the first. -/
theorem eq_of_ordered {ys zs : List α} (hys : ys.Pairwise fun a b => key a ≤ key b)
    (hzs : zs.Pairwise fun a b => key a ≤ key b) (hperm : ys.Perm zs)
    (hstable : ∀ k, ys.filter (fun a => key a = k) = zs.filter (fun a => key a = k)) :
    ys = zs := by
  induction ys generalizing zs with
  | nil => exact (List.Perm.nil_eq hperm)
  | cons y ys ih =>
      cases zs with
      | nil => exact absurd hperm.length_eq (by simp)
      | cons z zs =>
          rw [List.pairwise_cons] at hys hzs
          have hyz : key y ≤ key z := by
            rcases List.mem_cons.1 (hperm.symm.subset List.mem_cons_self) with rfl | hz
            · exact le_rfl
            · exact hys.1 z hz
          have hzy : key z ≤ key y := by
            rcases List.mem_cons.1 (hperm.subset List.mem_cons_self) with rfl | hy
            · exact le_rfl
            · exact hzs.1 y hy
          have hkey : key y = key z := le_antisymm hyz hzy
          have hfirst := hstable (key z)
          rw [List.filter_cons_of_pos (by simp [hkey]), List.filter_cons_of_pos (by simp),
            List.cons.injEq] at hfirst
          obtain ⟨rfl, -⟩ := hfirst
          have htails : ∀ k, ys.filter (fun a => key a = k) = zs.filter (fun a => key a = k) := by
            intro k
            have hk := hstable k
            by_cases hy : key y = k
            · rw [List.filter_cons_of_pos (by simp [hy]), List.filter_cons_of_pos (by simp [hy]),
                List.cons.injEq] at hk
              exact hk.2
            · rwa [List.filter_cons_of_neg (by simp [hy]),
                List.filter_cons_of_neg (by simp [hy])] at hk
          rw [ih hys.2 hzs.2 hperm.cons_inv htails]

theorem IsSorting.eq_sort {xs ys : List α} (h : IsSorting key xs ys) : ys = sort key xs := by
  have hsort := isSorting_sort key xs
  apply eq_of_ordered h.ordered hsort.ordered (h.perm.trans hsort.perm.symm)
  intro k
  rw [h.stable, hsort.stable]

end StableSort
