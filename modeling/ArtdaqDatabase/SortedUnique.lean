import Mathlib.Tactic
import Mathlib.Data.List.Sort

/-!
# Sorted lists without repetition

Sorting a list and dropping its repetitions gives the canonical list of its
members.  A second group of lemmas counts occurrences in a concatenation of
lists: a member of every list occurs at least once for each of them.
-/

namespace SortedUnique

variable {α : Type*} [LinearOrder α]

/-- The members of a list in increasing order, each once. -/
def sortUnique (l : List α) : List α :=
  (l.insertionSort (· ≤ ·)).dedup

@[simp]
theorem mem_sortUnique {l : List α} {x : α} :
    x ∈ sortUnique l ↔ x ∈ l := by
  rw [sortUnique, List.mem_dedup, List.mem_insertionSort]

theorem sortUnique_sortedLT (l : List α) : (sortUnique l).SortedLT := by
  rw [List.sortedLT_iff_nodup_and_sortedLE]
  refine ⟨List.nodup_dedup _, ?_⟩
  rw [List.sortedLE_iff_pairwise]
  exact List.Pairwise.sublist (List.dedup_sublist _)
    (List.pairwise_insertionSort (· ≤ ·) l)

@[simp]
theorem sortUnique_nil : sortUnique ([] : List α) = [] := rfl

/-- The canonical list is determined by the members. -/
theorem eq_sortUnique
    {l l' : List α} (hl : l.SortedLT) (hmem : ∀ x, x ∈ l ↔ x ∈ l') :
    l = sortUnique l' :=
  hl.eq_of_mem_iff (sortUnique_sortedLT l') fun x => by
    rw [mem_sortUnique, hmem]

theorem sortUnique_congr
    {l l' : List α} (hmem : ∀ x, x ∈ l ↔ x ∈ l') :
    sortUnique l = sortUnique l' :=
  eq_sortUnique (sortUnique_sortedLT l) fun x => by
    rw [mem_sortUnique, hmem]

theorem sortUnique_of_sortedLT {l : List α} (hl : l.SortedLT) :
    sortUnique l = l :=
  (eq_sortUnique hl fun _ => Iff.rfl).symm

theorem sortedLT_of_length_lt_two {l : List α} (hshort : l.length < 2) : l.SortedLT := by
  match l, hshort with
  | [], _ => exact List.Pairwise.nil.sortedLT
  | [x], _ => exact (List.pairwise_singleton _ x).sortedLT

theorem sortedLT_filter
    {l : List α} (hl : l.SortedLT) (p : α → Bool) :
    (l.filter p).SortedLT :=
  (hl.pairwise.sublist List.filter_sublist).sortedLT

/-! ## Counting in a concatenation -/

omit [LinearOrder α] in
/-- A member of every list occurs once for each list. -/
theorem length_le_count_flatten [DecidableEq α]
    {x : α} {lists : List (List α)} (hall : ∀ l ∈ lists, x ∈ l) :
    lists.length ≤ lists.flatten.count x := by
  induction lists with
  | nil => simp
  | cons l rest ih =>
      have hhead : 0 < l.count x :=
        List.count_pos_iff.2 (hall l (by simp))
      have htail : rest.length ≤ rest.flatten.count x :=
        ih fun l' hl' => hall l' (List.mem_cons_of_mem _ hl')
      rw [List.flatten_cons, List.count_append, List.length_cons]
      omega

/-- The largest number of occurrences of a member. -/
def maxCount (l : List α) : ℕ :=
  (l.map fun x => l.count x).foldr max 0

theorem le_maxCount {l : List α} {x : α} (hx : x ∈ l) :
    l.count x ≤ maxCount l := by
  have hgen : ∀ (f : α → ℕ) (m : List α), x ∈ m →
      f x ≤ (m.map f).foldr max 0 := by
    intro f m
    induction m with
    | nil => simp
    | cons y rest ih =>
        intro hmem
        rw [List.map_cons, List.foldr_cons]
        rcases List.mem_cons.1 hmem with rfl | hrest
        · exact le_max_left _ _
        · exact le_trans (ih hrest) (le_max_right _ _)
  exact hgen (fun y => l.count y) l hx

theorem exists_count_eq_maxCount {l : List α} (hne : l ≠ []) :
    ∃ x ∈ l, l.count x = maxCount l := by
  have hgen : ∀ (f : α → ℕ) (m : List α), m ≠ [] →
      ∃ x ∈ m, f x = (m.map f).foldr max 0 := by
    intro f m
    induction m with
    | nil => simp
    | cons y rest ih =>
        intro _
        rw [List.map_cons, List.foldr_cons]
        rcases eq_or_ne rest [] with rfl | hrest
        · exact ⟨y, by simp, by simp⟩
        · obtain ⟨x, hx, hfx⟩ := ih hrest
          rcases le_total (f y) ((rest.map f).foldr max 0) with hle | hle
          · exact ⟨x, List.mem_cons_of_mem _ hx, by rw [max_eq_right hle, hfx]⟩
          · exact ⟨y, by simp, (max_eq_left hle).symm⟩
  exact hgen (fun y => l.count y) l hne

theorem maxCount_lt_iff {l : List α} {k : ℕ} (hk : 0 < k) :
    maxCount l < k ↔ ∀ x ∈ l, l.count x < k := by
  constructor
  · intro hlt x hx
    exact lt_of_le_of_lt (le_maxCount hx) hlt
  · intro hall
    rcases eq_or_ne l [] with rfl | hne
    · simpa [maxCount] using hk
    · obtain ⟨x, hx, hcount⟩ := exists_count_eq_maxCount hne
      rw [← hcount]
      exact hall x hx

end SortedUnique
