import Mathlib.Data.List.DropRight

/-!
# Lists that are split at a separator

`split` cuts a list at every separator, and `join` puts the separator back between
the parts.  A list is split one part at a time: what stands in front of the first
separator, and then the rest.
-/

namespace SplitLines

variable {α : Type*}

def join (sep : α) : List (List α) → List α
  | [] => []
  | [part] => part
  | part :: next :: parts => part ++ sep :: join sep (next :: parts)

theorem join_cons {sep : α} (part : List α) {parts : List (List α)} (hparts : parts ≠ []) :
    join sep (part :: parts) = part ++ sep :: join sep parts := by
  obtain ⟨next, parts, rfl⟩ := List.exists_cons_of_ne_nil hparts
  rfl

section Split

variable [DecidableEq α]

def split (sep : α) : List α → List (List α)
  | [] => [[]]
  | a :: rest =>
      if a = sep then [] :: split sep rest
      else (split sep rest).modifyHead (a :: ·)

variable (sep : α)

@[simp]
theorem split_nil : split sep [] = [[]] := rfl

@[simp]
theorem split_sep (rest : List α) : split sep (sep :: rest) = [] :: split sep rest := by
  simp [split]

theorem split_ne_nil (xs : List α) : split sep xs ≠ [] := by
  induction xs with
  | nil => simp
  | cons a rest ih =>
      unfold split
      split
      · simp
      · simpa using ih

variable {sep}

/-- A part without the separator. -/
theorem split_part {part : List α} (hpart : sep ∉ part) : split sep part = [part] := by
  induction part with
  | nil => rfl
  | cons a part ih =>
      rw [List.mem_cons, not_or] at hpart
      obtain ⟨hne, hrest⟩ := hpart
      rw [split, if_neg (Ne.symm hne), ih hrest]
      rfl

/-- The first part ends at the first separator. -/
theorem split_append {part : List α} (hpart : sep ∉ part) (rest : List α) :
    split sep (part ++ sep :: rest) = part :: split sep rest := by
  induction part with
  | nil => simp
  | cons a part ih =>
      rw [List.mem_cons, not_or] at hpart
      obtain ⟨hne, hrest⟩ := hpart
      rw [List.cons_append, split, if_neg (Ne.symm hne), ih hrest]
      rfl

theorem notMem_of_mem_split {xs part : List α} (hpart : part ∈ split sep xs) : sep ∉ part := by
  induction xs generalizing part with
  | nil =>
      rw [split_nil, List.mem_singleton] at hpart
      simp [hpart]
  | cons a rest ih =>
      unfold split at hpart
      split at hpart
      · rcases List.mem_cons.1 hpart with rfl | hpart
        · simp
        · exact ih hpart
      · rename_i hne
        obtain ⟨first, others, hsplit⟩ := List.exists_cons_of_ne_nil (split_ne_nil sep rest)
        rw [hsplit, List.modifyHead_cons, List.mem_cons] at hpart
        rcases hpart with rfl | hpart
        · rw [List.mem_cons, not_or]
          exact ⟨Ne.symm hne, ih (by simp [hsplit])⟩
        · exact ih (by simp [hsplit, hpart])

theorem split_join {parts : List (List α)} (hne : parts ≠ []) (hparts : ∀ part ∈ parts, sep ∉ part) :
    split sep (join sep parts) = parts := by
  induction parts with
  | nil => exact absurd rfl hne
  | cons part parts ih =>
      obtain ⟨hpart, hrest⟩ := List.forall_mem_cons.1 hparts
      cases parts with
      | nil => exact split_part hpart
      | cons next parts =>
          rw [join_cons part (List.cons_ne_nil next parts), split_append hpart,
            ih (List.cons_ne_nil next parts) hrest]

end Split

theorem join_concat_nil {sep : α} {parts : List (List α)} (hne : parts ≠ []) :
    join sep (parts ++ [[]]) = join sep parts ++ [sep] := by
  induction parts with
  | nil => exact absurd rfl hne
  | cons part parts ih =>
      cases parts with
      | nil => rfl
      | cons next parts =>
          rw [List.cons_append, join_cons part (by simp), ih (List.cons_ne_nil next parts),
            join_cons part (List.cons_ne_nil next parts)]
          simp

end SplitLines
