import Mathlib.Tactic

/-!
# Ordered tables

An association list that is read through the first entry of a key: `lookup`
returns that entry, `set` overwrites it or appends a new one, `adjust` rewrites
it in place, and `deleteAt` drops it.  A key may occur more than once, so the
number of its entries is a notion of its own.
-/

namespace OrderedTable

variable {κ ν : Type*} [DecidableEq κ]

/-- The entries of a table, in order. -/
abbrev Table (κ ν : Type*) := List (κ × ν)

/-- The value of the first entry of `k`. -/
def lookup (k : κ) : Table κ ν → Option ν
  | [] => none
  | (a, v) :: rest => if a = k then some v else lookup k rest

/-- The number of entries of `k`. -/
def count (k : κ) (t : Table κ ν) : ℕ :=
  (t.map Prod.fst).count k

/-- Overwrite the first entry of `k`, or append one. -/
def set (k : κ) (v : ν) : Table κ ν → Table κ ν
  | [] => [(k, v)]
  | (a, w) :: rest => if a = k then (a, v) :: rest else (a, w) :: set k v rest

/-- Rewrite the first entry of `k`, leaving the table alone if there is none. -/
def adjust (k : κ) (f : ν → ν) : Table κ ν → Table κ ν
  | [] => []
  | (a, w) :: rest =>
      if a = k then (a, f w) :: rest else (a, w) :: adjust k f rest

/-- Drop the first entry of `k`. -/
def deleteAt (k : κ) : Table κ ν → Table κ ν
  | [] => []
  | (a, w) :: rest => if a = k then rest else (a, w) :: deleteAt k rest

/-! ## Lookup after an update -/

@[simp]
theorem lookup_nil (k : κ) : lookup k ([] : Table κ ν) = none := rfl

@[simp]
theorem lookup_set_self (k : κ) (v : ν) (t : Table κ ν) :
    lookup k (set k v t) = some v := by
  induction t with
  | nil => simp [set, lookup]
  | cons entry rest ih =>
      obtain ⟨a, w⟩ := entry
      by_cases ha : a = k
      · simp [set, lookup, ha]
      · simp [set, lookup, ha, ih]

theorem lookup_set_of_ne
    {k k' : κ} (hne : k' ≠ k) (v : ν) (t : Table κ ν) :
    lookup k' (set k v t) = lookup k' t := by
  induction t with
  | nil => simp [set, lookup, hne.symm]
  | cons entry rest ih =>
      obtain ⟨a, w⟩ := entry
      by_cases ha : a = k
      · subst ha
        simp [set, lookup, hne.symm]
      · simp only [set, if_neg ha, lookup, ih]

theorem lookup_set (k k' : κ) (v : ν) (t : Table κ ν) :
    lookup k' (set k v t) = if k' = k then some v else lookup k' t := by
  by_cases hk : k' = k
  · simp [hk]
  · simp [hk, lookup_set_of_ne hk]

@[simp]
theorem lookup_adjust_self (k : κ) (f : ν → ν) (t : Table κ ν) :
    lookup k (adjust k f t) = (lookup k t).map f := by
  induction t with
  | nil => simp [adjust, lookup]
  | cons entry rest ih =>
      obtain ⟨a, w⟩ := entry
      by_cases ha : a = k
      · simp [adjust, lookup, ha]
      · simp [adjust, lookup, ha, ih]

theorem lookup_adjust_of_ne
    {k k' : κ} (hne : k' ≠ k) (f : ν → ν) (t : Table κ ν) :
    lookup k' (adjust k f t) = lookup k' t := by
  induction t with
  | nil => simp [adjust, lookup]
  | cons entry rest ih =>
      obtain ⟨a, w⟩ := entry
      by_cases ha : a = k
      · subst ha
        simp [adjust, lookup, hne.symm]
      · simp only [adjust, if_neg ha, lookup, ih]

theorem lookup_adjust (k k' : κ) (f : ν → ν) (t : Table κ ν) :
    lookup k' (adjust k f t) =
      if k' = k then (lookup k' t).map f else lookup k' t := by
  by_cases hk : k' = k
  · simp [hk]
  · simp [hk, lookup_adjust_of_ne hk]

/-! ## Keys -/

theorem lookup_eq_none_iff {k : κ} {t : Table κ ν} :
    lookup k t = none ↔ k ∉ t.map Prod.fst := by
  induction t with
  | nil => simp
  | cons entry rest ih =>
      obtain ⟨a, w⟩ := entry
      by_cases ha : a = k
      · simp [lookup, ha]
      · simp [lookup, ha, ih, Ne.symm ha]

theorem count_eq_zero_iff {k : κ} {t : Table κ ν} :
    count k t = 0 ↔ lookup k t = none := by
  rw [lookup_eq_none_iff, count, List.count_eq_zero]

theorem lookup_isSome_of_count_pos
    {k : κ} {t : Table κ ν} (hcount : 0 < count k t) :
    ∃ v, lookup k t = some v := by
  cases hlookup : lookup k t with
  | none =>
      have := count_eq_zero_iff.2 hlookup
      omega
  | some v => exact ⟨v, rfl⟩

theorem count_pos_of_lookup
    {k : κ} {t : Table κ ν} {v : ν} (hlookup : lookup k t = some v) :
    0 < count k t := by
  rcases Nat.eq_zero_or_pos (count k t) with hzero | hpos
  · rw [count_eq_zero_iff, hlookup] at hzero
    exact absurd hzero (by simp)
  · exact hpos

/-- Overwriting leaves the keys alone, and a new entry goes to the end. -/
theorem keys_set (k : κ) (v : ν) (t : Table κ ν) :
    (set k v t).map Prod.fst =
      if k ∈ t.map Prod.fst then t.map Prod.fst else t.map Prod.fst ++ [k] := by
  induction t with
  | nil => simp [set]
  | cons entry rest ih =>
      obtain ⟨a, w⟩ := entry
      by_cases ha : a = k
      · simp [set, ha]
      · simp only [set, if_neg ha, List.map_cons, ih, List.mem_cons,
          Ne.symm ha, false_or]
        split <;> simp

theorem keys_adjust (k : κ) (f : ν → ν) (t : Table κ ν) :
    (adjust k f t).map Prod.fst = t.map Prod.fst := by
  induction t with
  | nil => rfl
  | cons entry rest ih =>
      obtain ⟨a, w⟩ := entry
      by_cases ha : a = k
      · simp [adjust, ha]
      · simp [adjust, ha, ih]

theorem count_set_self_of_lookup
    {k : κ} {t : Table κ ν} {w : ν} (hlookup : lookup k t = some w) (v : ν) :
    count k (set k v t) = count k t := by
  have hmem : k ∈ t.map Prod.fst := by
    by_contra hnot
    rw [← lookup_eq_none_iff, hlookup] at hnot
    exact absurd hnot (by simp)
  rw [count, keys_set, if_pos hmem, count]

theorem count_set_self_of_absent
    {k : κ} {t : Table κ ν} (habsent : lookup k t = none) (v : ν) :
    count k (set k v t) = 1 := by
  have hnot : k ∉ t.map Prod.fst := lookup_eq_none_iff.1 habsent
  rw [count, keys_set, if_neg hnot, List.count_append,
    List.count_eq_zero.2 hnot]
  simp

theorem count_set_of_ne
    {k k' : κ} (hne : k' ≠ k) (v : ν) (t : Table κ ν) :
    count k' (set k v t) = count k' t := by
  rw [count, keys_set, count]
  split
  · rfl
  · simp [List.count_append, hne.symm]

theorem set_ne_nil (k : κ) (v : ν) (t : Table κ ν) : set k v t ≠ [] := by
  cases t with
  | nil => simp [set]
  | cons entry rest =>
      rw [set]
      split <;> simp

theorem set_of_absent
    {k : κ} {t : Table κ ν} (habsent : lookup k t = none) (v : ν) :
    set k v t = t ++ [(k, v)] := by
  induction t with
  | nil => rfl
  | cons entry rest ih =>
      obtain ⟨a, w⟩ := entry
      by_cases ha : a = k
      · simp [lookup, ha] at habsent
      · rw [lookup, if_neg ha] at habsent
        rw [set, if_neg ha, ih habsent, List.cons_append]

/-- Writing back the value a table already has changes nothing. -/
theorem set_of_lookup
    {k : κ} {v : ν} {t : Table κ ν} (hlookup : lookup k t = some v) :
    set k v t = t := by
  induction t with
  | nil => simp at hlookup
  | cons entry rest ih =>
      obtain ⟨a, w⟩ := entry
      by_cases ha : a = k
      · simp only [lookup, if_pos ha, Option.some.injEq] at hlookup
        simp [set, ha, hlookup]
      · simp only [lookup, if_neg ha] at hlookup
        simp [set, ha, ih hlookup]

@[simp]
theorem set_set (k : κ) (v w : ν) (t : Table κ ν) :
    set k v (set k w t) = set k v t := by
  induction t with
  | nil => simp [set]
  | cons entry rest ih =>
      obtain ⟨a, u⟩ := entry
      by_cases ha : a = k
      · simp [set, ha]
      · simp [set, ha, ih]

/-! ## Deletion -/

theorem lookup_deleteAt_of_ne
    {k k' : κ} (hne : k' ≠ k) (t : Table κ ν) :
    lookup k' (deleteAt k t) = lookup k' t := by
  induction t with
  | nil => rfl
  | cons entry rest ih =>
      obtain ⟨a, w⟩ := entry
      by_cases ha : a = k
      · simp [deleteAt, lookup, ha, hne.symm]
      · simp [deleteAt, lookup, ha, ih]

theorem count_deleteAt_self (k : κ) (t : Table κ ν) :
    count k (deleteAt k t) = count k t - 1 := by
  induction t with
  | nil => rfl
  | cons entry rest ih =>
      obtain ⟨a, w⟩ := entry
      by_cases ha : a = k
      · simp [deleteAt, count, ha]
      · simp only [count] at ih
        simp [deleteAt, count, ha, ih]

/-- An entry that was appended is dropped again. -/
theorem deleteAt_set_of_absent
    {k : κ} {t : Table κ ν} (habsent : lookup k t = none) (v : ν) :
    deleteAt k (set k v t) = t := by
  induction t with
  | nil => simp [set, deleteAt]
  | cons entry rest ih =>
      obtain ⟨a, w⟩ := entry
      by_cases ha : a = k
      · simp [lookup, ha] at habsent
      · rw [lookup, if_neg ha] at habsent
        rw [set, if_neg ha, deleteAt, if_neg ha, ih habsent]

/-! ## Entries -/

theorem mem_of_lookup
    {k : κ} {v : ν} {t : Table κ ν} (hlookup : lookup k t = some v) :
    (k, v) ∈ t := by
  induction t with
  | nil => simp at hlookup
  | cons entry rest ih =>
      obtain ⟨a, w⟩ := entry
      by_cases ha : a = k
      · simp only [lookup, if_pos ha, Option.some.injEq] at hlookup
        simp [ha, hlookup]
      · simp only [lookup, if_neg ha] at hlookup
        exact List.mem_cons_of_mem _ (ih hlookup)

/-- The entry of a key that occurs once. -/
theorem lookup_of_mem_of_count
    {k : κ} {v : ν} {t : Table κ ν} (hmem : (k, v) ∈ t) (hcount : count k t = 1) :
    lookup k t = some v := by
  induction t with
  | nil => cases hmem
  | cons entry rest ih =>
      obtain ⟨a, w⟩ := entry
      by_cases ha : a = k
      · have hrest : k ∉ rest.map Prod.fst := by
          have hzero : (rest.map Prod.fst).count k = 0 := by simpa [count, ha] using hcount
          exact List.count_eq_zero.1 hzero
        rcases List.mem_cons.1 hmem with hfirst | hlater
        · rw [Prod.mk.injEq] at hfirst
          rw [lookup, if_pos ha, hfirst.2]
        · exact absurd (List.mem_map_of_mem hlater) hrest
      · have hrest : count k rest = 1 := by
          simpa [count, ha] using hcount
        rcases List.mem_cons.1 hmem with hfirst | hlater
        · exact absurd (Prod.mk.inj hfirst).1.symm ha
        · rw [lookup, if_neg ha, ih hlater hrest]

theorem mem_set
    {k : κ} {v : ν} {t : Table κ ν} {entry : κ × ν} (h : entry ∈ set k v t) :
    entry = (k, v) ∨ entry ∈ t := by
  induction t with
  | nil => exact Or.inl (List.mem_singleton.1 h)
  | cons first rest ih =>
      obtain ⟨a, w⟩ := first
      by_cases ha : a = k
      · rw [set, if_pos ha, List.mem_cons, ha] at h
        exact h.imp_right (List.mem_cons_of_mem _)
      · rw [set, if_neg ha, List.mem_cons] at h
        rcases h with h | h
        · exact Or.inr (h ▸ List.mem_cons_self)
        · exact (ih h).imp_right (List.mem_cons_of_mem _)

/-- What holds of the new entry if and only if it held of the old one. -/
theorem forall_mem_set_iff
    {k : κ} {v w : ν} {t : Table κ ν} (hlookup : lookup k t = some w) {P : κ × ν → Prop}
    (hP : P (k, v) ↔ P (k, w)) : (∀ entry ∈ set k v t, P entry) ↔ ∀ entry ∈ t, P entry := by
  induction t with
  | nil => simp at hlookup
  | cons first rest ih =>
      obtain ⟨a, u⟩ := first
      by_cases ha : a = k
      · rw [lookup, if_pos ha, Option.some.injEq] at hlookup
        rw [set, if_pos ha, ha, hlookup, List.forall_mem_cons, List.forall_mem_cons, hP]
      · rw [lookup, if_neg ha] at hlookup
        rw [set, if_neg ha, List.forall_mem_cons, List.forall_mem_cons, ih hlookup]

theorem lookup_append (k : κ) (t u : Table κ ν) :
    lookup k (t ++ u) = (lookup k t).or (lookup k u) := by
  induction t with
  | nil => simp
  | cons entry rest ih =>
      obtain ⟨a, w⟩ := entry
      by_cases ha : a = k
      · simp [lookup, ha]
      · simp [lookup, ha, ih]

theorem lookup_of_mem
    {k : κ} {v : ν} {t : Table κ ν} (hnodup : (t.map Prod.fst).Nodup) (hmem : (k, v) ∈ t) :
    lookup k t = some v := by
  induction t with
  | nil => simp at hmem
  | cons entry rest ih =>
      obtain ⟨a, w⟩ := entry
      rw [List.map_cons, List.nodup_cons] at hnodup
      rcases List.mem_cons.1 hmem with heq | hrest
      · rw [Prod.mk.injEq] at heq
        simp [lookup, heq]
      · have hne : a ≠ k := by
          rintro rfl
          exact hnodup.1 (List.mem_map.2 ⟨_, hrest, rfl⟩)
        simp [lookup, hne, ih hnodup.2 hrest]

/-! ## Several assignments -/

/-- Assign each pair in turn. -/
def setAll (pairs : List (κ × ν)) (t : Table κ ν) : Table κ ν :=
  pairs.foldl (fun t pair => set pair.1 pair.2 t) t

/-- The last assignment of a key wins. -/
theorem lookup_setAll (k : κ) (pairs : List (κ × ν)) (t : Table κ ν) :
    lookup k (setAll pairs t) = (lookup k pairs.reverse).or (lookup k t) := by
  induction pairs generalizing t with
  | nil => simp [setAll]
  | cons pair rest ih =>
      have hrest : setAll (pair :: rest) t = setAll rest (set pair.1 pair.2 t) := rfl
      rw [hrest, ih, List.reverse_cons, lookup_append, Option.or_assoc, lookup_set]
      by_cases hk : k = pair.1
      · simp [lookup, hk]
      · simp [lookup, hk, Ne.symm hk]

theorem lookup_setAll_append (k : κ) (pairs more : List (κ × ν)) :
    lookup k (setAll (pairs ++ more) []) =
      (lookup k (setAll more [])).or (lookup k (setAll pairs [])) := by
  simp only [lookup_setAll, List.reverse_append, lookup_append, lookup_nil, Option.or_none]

theorem mem_setAll
    {pairs : List (κ × ν)} {t : Table κ ν} {entry : κ × ν} (h : entry ∈ setAll pairs t) :
    entry ∈ pairs ∨ entry ∈ t := by
  induction pairs generalizing t with
  | nil => exact Or.inr h
  | cons pair rest ih =>
      have hrest : entry ∈ setAll rest (set pair.1 pair.2 t) := h
      rcases ih hrest with hmem | hset
      · exact Or.inl (List.mem_cons_of_mem pair hmem)
      · rcases mem_set hset with rfl | hold
        · exact Or.inl List.mem_cons_self
        · exact Or.inr hold

theorem mem_of_lookup_setAll
    {k : κ} {v : ν} {pairs : List (κ × ν)} (hlookup : lookup k (setAll pairs []) = some v) :
    (k, v) ∈ pairs := by
  rw [lookup_setAll, lookup_nil, Option.or_none] at hlookup
  exact List.mem_reverse.1 (mem_of_lookup hlookup)

theorem lookup_setAll_of_mem
    {k : κ} {v : ν} {pairs : List (κ × ν)} (hnodup : (pairs.map Prod.fst).Nodup)
    (hmem : (k, v) ∈ pairs) :
    lookup k (setAll pairs []) = some v := by
  rw [lookup_setAll, lookup_nil, Option.or_none]
  refine lookup_of_mem ?_ (List.mem_reverse.2 hmem)
  rw [List.map_reverse]
  exact List.nodup_reverse.2 hnodup

/-! ## Entries of other keys -/

/-- The entries of every key but `k`. -/
def without (k : κ) (t : Table κ ν) : Table κ ν :=
  t.filter fun entry => entry.1 ≠ k

theorem lookup_without_of_ne {k k' : κ} (hne : k' ≠ k) (t : Table κ ν) :
    lookup k' (without k t) = lookup k' t := by
  induction t with
  | nil => rfl
  | cons entry rest ih =>
      obtain ⟨a, v⟩ := entry
      rw [without] at ih ⊢
      by_cases ha : a = k
      · have hak : a ≠ k' := fun h => hne (h.symm.trans ha)
        rw [List.filter_cons_of_neg (by simpa using ha), ih, lookup, if_neg hak]
      · rw [List.filter_cons_of_pos (by simpa using ha), lookup, lookup, ih]

theorem without_set_self (k : κ) (v : ν) (t : Table κ ν) :
    without k (set k v t) = without k t := by
  induction t with
  | nil => simp [without, set]
  | cons entry rest ih =>
      obtain ⟨a, w⟩ := entry
      rw [without, without] at ih ⊢
      by_cases ha : a = k
      · simp [set, ha]
      · rw [set, if_neg ha, List.filter_cons, List.filter_cons, ih]

end OrderedTable
