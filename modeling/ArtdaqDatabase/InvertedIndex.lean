import ArtdaqDatabase.OrderedTable
import ArtdaqDatabase.SortedUnique

/-!
# Inverted indexes

A table from values to postings, each posting a sorted list of identifiers,
denotes a relation between values and identifiers.  Inserting and dropping one
posting are the insertion and removal of one pair.  The second half is about
keeping such a relation equal to what the items of a store carry: it says what
an overwrite has to remove, and what goes wrong when it removes less or when a
tag is shared by several items.
-/

namespace InvertedIndex

open OrderedTable SortedUnique

variable {V I D : Type*}

section Tables

variable [DecidableEq V] [LinearOrder I]

/-- The identifiers listed under a value. -/
def posting (v : V) (t : Table V (List I)) : List I :=
  (lookup v t).getD []

/-- List an identifier under a value. -/
def insertPosting (v : V) (i : I) (t : Table V (List I)) : Table V (List I) :=
  set v (sortUnique (posting v t ++ [i])) t

/-- Strike an identifier from a value, which keeps its entry. -/
def dropPosting (v : V) (i : I) (t : Table V (List I)) : Table V (List I) :=
  adjust v (fun l => l.filter (· ≠ i)) t

/-- The relation that a table denotes. -/
def entries (t : Table V (List I)) : Set (V × I) :=
  {p | p.2 ∈ posting p.1 t}

/-- Every posting is sorted and free of repetitions. -/
def SortedPostings (t : Table V (List I)) : Prop :=
  ∀ v, (posting v t).SortedLT

omit [LinearOrder I] in
@[simp]
theorem mem_entries {t : Table V (List I)} {v : V} {i : I} :
    (v, i) ∈ entries t ↔ i ∈ posting v t := Iff.rfl

omit [LinearOrder I] in
@[simp]
theorem entries_nil : entries ([] : Table V (List I)) = ∅ := by
  ext ⟨v, i⟩
  simp [posting]

theorem posting_insertPosting (v w : V) (i : I) (t : Table V (List I)) :
    posting w (insertPosting v i t) =
      if w = v then sortUnique (posting v t ++ [i]) else posting w t := by
  unfold posting insertPosting
  rw [lookup_set]
  split <;> simp [posting]

theorem posting_dropPosting (v w : V) (i : I) (t : Table V (List I)) :
    posting w (dropPosting v i t) =
      if w = v then (posting v t).filter (· ≠ i) else posting w t := by
  unfold posting dropPosting
  rw [lookup_adjust]
  by_cases hw : w = v
  · subst hw
    cases lookup w t <;> simp
  · simp [hw]

@[simp]
theorem entries_insertPosting (v : V) (i : I) (t : Table V (List I)) :
    entries (insertPosting v i t) = insert (v, i) (entries t) := by
  ext ⟨w, j⟩
  simp only [mem_entries, posting_insertPosting, Set.mem_insert_iff, Prod.mk.injEq]
  by_cases hw : w = v
  · subst hw
    simp [or_comm]
  · simp [hw]

@[simp]
theorem entries_dropPosting (v : V) (i : I) (t : Table V (List I)) :
    entries (dropPosting v i t) = entries t \ {(v, i)} := by
  ext ⟨w, j⟩
  simp only [mem_entries, posting_dropPosting, Set.mem_sdiff, Set.mem_singleton_iff,
    Prod.mk.injEq]
  by_cases hw : w = v
  · subst hw
    simp
  · simp [hw]

theorem sortedPostings_nil : SortedPostings ([] : Table V (List I)) := by
  intro v
  simpa [posting] using sortUnique_sortedLT ([] : List I)

theorem SortedPostings.insertPosting
    {t : Table V (List I)} (ht : SortedPostings t) (v : V) (i : I) :
    SortedPostings (insertPosting v i t) := by
  intro w
  rw [posting_insertPosting]
  split
  · exact sortUnique_sortedLT _
  · exact ht w

theorem SortedPostings.dropPosting
    {t : Table V (List I)} (ht : SortedPostings t) (v : V) (i : I) :
    SortedPostings (dropPosting v i t) := by
  intro w
  rw [posting_dropPosting]
  split
  · exact sortedLT_filter (ht v) _
  · exact ht w

theorem keys_insertPosting_nodup
    {t : Table V (List I)} (ht : (t.map Prod.fst).Nodup) (v : V) (i : I) :
    ((insertPosting v i t).map Prod.fst).Nodup := by
  rw [insertPosting, keys_set]
  split
  · exact ht
  · rename_i hv
    rw [List.nodup_append]
    refine ⟨ht, List.nodup_singleton v, fun w hw w' hw' => ?_⟩
    rw [List.mem_singleton.1 hw']
    rintro rfl
    exact hv hw

theorem mem_keys_insertPosting {t : Table V (List I)} {v w : V} {i : I}
    (hw : w ∈ (insertPosting v i t).map Prod.fst) :
    w = v ∨ w ∈ t.map Prod.fst := by
  rw [insertPosting, keys_set] at hw
  split at hw
  · exact Or.inr hw
  · rw [List.mem_append, List.mem_singleton] at hw
    exact hw.symm

@[simp]
theorem keys_dropPosting (v : V) (i : I) (t : Table V (List I)) :
    (dropPosting v i t).map Prod.fst = t.map Prod.fst :=
  keys_adjust _ _ _

/-- Listing one identifier under several values. -/
theorem entries_foldl_insertPosting (vs : List V) (i : I) (t : Table V (List I)) :
    entries (vs.foldl (fun t v => insertPosting v i t) t) =
      entries t ∪ {p | p.1 ∈ vs ∧ p.2 = i} := by
  induction vs generalizing t with
  | nil => simp
  | cons v vs ih =>
      rw [List.foldl_cons, ih, entries_insertPosting]
      ext ⟨w, j⟩
      simp only [Set.mem_union, Set.mem_insert_iff, Set.mem_ofPred_eq, Prod.mk.injEq,
        List.mem_cons]
      tauto

/-- Striking one identifier from several values. -/
theorem entries_foldl_dropPosting (vs : List V) (i : I) (t : Table V (List I)) :
    entries (vs.foldl (fun t v => dropPosting v i t) t) =
      entries t \ {p | p.1 ∈ vs ∧ p.2 = i} := by
  induction vs generalizing t with
  | nil => simp
  | cons v vs ih =>
      rw [List.foldl_cons, ih, entries_dropPosting]
      ext ⟨w, j⟩
      simp only [Set.mem_sdiff, Set.mem_singleton_iff, Set.mem_ofPred_eq, Prod.mk.injEq,
        List.mem_cons]
      tauto

/-- Listing several pairs. -/
theorem entries_foldl_insertPair (ps : List (V × I)) (t : Table V (List I)) :
    entries (ps.foldl (fun t p => insertPosting p.1 p.2 t) t) = entries t ∪ {p | p ∈ ps} := by
  induction ps generalizing t with
  | nil => simp
  | cons p ps ih =>
      rw [List.foldl_cons, ih, entries_insertPosting]
      ext q
      simp only [Set.mem_union, Set.mem_insert_iff, Set.mem_ofPred_eq, List.mem_cons]
      tauto

/-- Striking several pairs. -/
theorem entries_foldl_dropPair (ps : List (V × I)) (t : Table V (List I)) :
    entries (ps.foldl (fun t p => dropPosting p.1 p.2 t) t) = entries t \ {p | p ∈ ps} := by
  induction ps generalizing t with
  | nil => simp
  | cons p ps ih =>
      rw [List.foldl_cons, ih, entries_dropPosting]
      ext q
      simp only [Set.mem_sdiff, Set.mem_singleton_iff, Set.mem_ofPred_eq, List.mem_cons]
      tauto

end Tables

/-! ## Reading a table backwards -/

/-- Some entry of the table lists the identifier under the value. -/
def Listed (t : Table V (List I)) (v : V) (i : I) : Prop :=
  ∃ ids, (v, ids) ∈ t ∧ i ∈ ids

/-- The last entry of the table that lists the identifier has the value. -/
def ListedLast (t : Table V (List I)) (v : V) (i : I) : Prop :=
  ∃ before ids after, t = before ++ (v, ids) :: after ∧ i ∈ ids ∧ ∀ e ∈ after, i ∉ e.2

theorem listed_iff_mem_posting [DecidableEq V]
    {t : Table V (List I)} (hkeys : (t.map Prod.fst).Nodup) {v : V} {i : I} :
    Listed t v i ↔ i ∈ posting v t := by
  constructor
  · rintro ⟨ids, hmem, hi⟩
    rwa [posting, lookup_of_mem hkeys hmem]
  · intro hi
    unfold posting at hi
    cases hids : lookup v t with
    | none => simp [hids] at hi
    | some ids =>
        rw [hids] at hi
        exact ⟨ids, mem_of_lookup hids, hi⟩

theorem ListedLast.listed {t : Table V (List I)} {v : V} {i : I} (h : ListedLast t v i) :
    Listed t v i := by
  obtain ⟨before, ids, after, rfl, hi, -⟩ := h
  exact ⟨ids, by simp, hi⟩

theorem listedLast_cons {e : V × List I} {t : Table V (List I)} {v : V} {i : I} :
    ListedLast (e :: t) v i ↔
      ListedLast t v i ∨ (∀ e' ∈ t, i ∉ e'.2) ∧ i ∈ e.2 ∧ e.1 = v := by
  constructor
  · rintro ⟨before, ids, after, heq, hi, hlast⟩
    cases before with
    | nil =>
        rw [List.nil_append, List.cons.injEq] at heq
        obtain ⟨rfl, rfl⟩ := heq
        exact Or.inr ⟨hlast, hi, rfl⟩
    | cons first before =>
        rw [List.cons_append, List.cons.injEq] at heq
        exact Or.inl ⟨before, ids, after, heq.2, hi, hlast⟩
  · rintro (⟨before, ids, after, rfl, hi, hlast⟩ | ⟨hlast, hi, rfl⟩)
    · exact ⟨e :: before, ids, after, rfl, hi, hlast⟩
    · exact ⟨[], e.2, t, rfl, hi, hlast⟩

section Invert

variable [DecidableEq I]

/-- The value of each identifier; the last entry that lists it wins. -/
def invert (t : Table V (List I)) : Table I V :=
  setAll (t.flatMap fun e => e.2.map fun i => (i, e.1)) []

theorem lookup_setAll_const (v : V) (ids : List I) (i : I) :
    lookup i (setAll (ids.map fun j => (j, v)) []) = if i ∈ ids then some v else none := by
  by_cases hi : i ∈ ids
  · rw [if_pos hi, lookup_setAll, lookup_nil, Option.or_none]
    cases hlookup : lookup i (ids.map fun j => (j, v)).reverse with
    | none =>
        rw [lookup_eq_none_iff] at hlookup
        simp [hi] at hlookup
    | some w =>
        have hpair := List.mem_reverse.1 (mem_of_lookup hlookup)
        simp only [List.mem_map, Prod.mk.injEq] at hpair
        obtain ⟨_, _, _, hw⟩ := hpair
        rw [hw]
  · rw [if_neg hi, lookup_setAll, lookup_nil, Option.or_none, lookup_eq_none_iff]
    simpa using hi

theorem lookup_invert_cons (i : I) (e : V × List I) (t : Table V (List I)) :
    lookup i (invert (e :: t)) =
      (lookup i (invert t)).or (if i ∈ e.2 then some e.1 else none) := by
  rw [← lookup_setAll_const e.1 e.2 i]
  exact lookup_setAll_append i _ _

theorem lookup_invert_eq_none {i : I} {t : Table V (List I)} :
    lookup i (invert t) = none ↔ ∀ e ∈ t, i ∉ e.2 := by
  induction t with
  | nil => simp [invert, setAll]
  | cons e t ih =>
      rw [lookup_invert_cons, Option.or_eq_none_iff, ih, List.forall_mem_cons]
      by_cases hi : i ∈ e.2 <;> simp [hi]

theorem lookup_invert_eq_some {i : I} {v : V} {t : Table V (List I)} :
    lookup i (invert t) = some v ↔ ListedLast t v i := by
  induction t with
  | nil => simp [invert, setAll, ListedLast]
  | cons e t ih =>
      rw [lookup_invert_cons, listedLast_cons, ← ih, ← lookup_invert_eq_none]
      cases lookup i (invert t) with
      | none => by_cases hi : i ∈ e.2 <;> simp [hi]
      | some w => simp

/-- An identifier that is listed at all is listed last somewhere. -/
theorem exists_listedLast {t : Table V (List I)} {v : V} {i : I} (h : Listed t v i) :
    ∃ w, ListedLast t w i := by
  obtain ⟨ids, hmem, hi⟩ := h
  cases hlookup : lookup i (invert t) with
  | none => exact absurd hi (lookup_invert_eq_none.1 hlookup _ hmem)
  | some w => exact ⟨w, lookup_invert_eq_some.1 hlookup⟩

end Invert

/-! ## Following the items of a store -/

/-- The pairs of a value and an item that carries it. -/
def carriedBy (attr : D → Set V) (items : I → Option D) : Set (V × I) :=
  {p | ∃ d, items p.2 = some d ∧ p.1 ∈ attr d}

/-- The values that some item carries. -/
def carried (attr : D → Set V) (items : I → Option D) : Set V :=
  {v | ∃ i d, items i = some d ∧ v ∈ attr d}

section Overwrite

variable [DecidableEq I] {attr : D → Set V} {items : I → Option D}
  {i : I} {new : D}

/-- The pairs that an overwrite has to remove, given what was stored. -/
def stale (attr : D → Set V) (old : Option D) (i : I) : Set (V × I) :=
  {p | p.2 = i ∧ ∃ d, old = some d ∧ p.1 ∈ attr d}

omit [DecidableEq I] in
/-- Nothing is stale of an item that was not there. -/
@[simp]
theorem stale_none : stale attr none i = (∅ : Set (V × I)) := by
  ext p
  simp [stale]

/-- Removing the old pairs and adding the new ones follows an overwrite. -/
theorem carriedBy_update :
    carriedBy attr (Function.update items i (some new)) =
      (carriedBy attr items \ stale attr (items i) i) ∪
        {p | p.1 ∈ attr new ∧ p.2 = i} := by
  ext ⟨v, j⟩
  by_cases hj : j = i
  · subst hj
    simp [carriedBy, stale]
  · simp [carriedBy, stale, hj]

/-- Adding the new pairs alone follows an overwrite exactly when the new item
keeps every value of the old one. -/
theorem carriedBy_update_eq_union_iff :
    carriedBy attr (Function.update items i (some new)) =
        carriedBy attr items ∪ {p | p.1 ∈ attr new ∧ p.2 = i} ↔
      ∀ d, items i = some d → attr d ⊆ attr new := by
  constructor
  · intro hunion d hd v hv
    have hold : (v, i) ∈ carriedBy attr (Function.update items i (some new)) := by
      rw [hunion]
      exact Or.inl ⟨d, hd, hv⟩
    obtain ⟨d', hd', hv'⟩ := hold
    rw [Function.update_self, Option.some.injEq] at hd'
    rw [hd']
    exact hv'
  · intro hkept
    rw [carriedBy_update]
    ext ⟨v, j⟩
    simp only [Set.mem_union, Set.mem_sdiff, Set.mem_ofPred_eq]
    constructor
    · exact fun h => h.imp_left And.left
    · rintro (hold | hnew)
      · by_cases hstale : (v, j) ∈ stale attr (items i) i
        · obtain ⟨hj, d, hd, hv⟩ := hstale
          exact Or.inr ⟨hkept d hd hv, hj⟩
        · exact Or.inl ⟨hold, hstale⟩
      · exact Or.inr hnew

/-- A table of shared values follows an overwrite exactly when no other item
carries a value that only the old item had. -/
theorem carried_update_eq_union_iff :
    carried attr (Function.update items i (some new)) =
        (carried attr items \ {v | ∃ d, items i = some d ∧ v ∈ attr d}) ∪ attr new ↔
      ∀ d v, items i = some d → v ∈ attr d → v ∉ attr new →
        ∀ j d', j ≠ i → items j = some d' → v ∉ attr d' := by
  constructor
  · intro hunion d v hd hv hnew j d' hj hd' hv'
    have hother : v ∈ carried attr (Function.update items i (some new)) :=
      ⟨j, d', by rw [Function.update_of_ne hj, hd'], hv'⟩
    rw [hunion] at hother
    rcases hother with hkept | hnew'
    · exact hkept.2 ⟨d, hd, hv⟩
    · exact hnew hnew'
  · intro hunshared
    ext v
    simp only [carried, Set.mem_ofPred_eq, Set.mem_union, Set.mem_sdiff, not_exists, not_and]
    constructor
    · rintro ⟨j, d, hd, hv⟩
      by_cases hj : j = i
      · subst hj
        rw [Function.update_self, Option.some.injEq] at hd
        subst hd
        exact Or.inr hv
      · rw [Function.update_of_ne hj] at hd
        by_cases hnew : v ∈ attr new
        · exact Or.inr hnew
        · exact Or.inl ⟨⟨j, d, hd, hv⟩, fun e he hve =>
            hunshared e v he hve hnew j d hj hd hv⟩
    · rintro (⟨⟨j, d, hd, hv⟩, hold⟩ | hv)
      · have hj : j ≠ i := by
          rintro rfl
          exact hold d hd hv
        exact ⟨j, d, by rw [Function.update_of_ne hj, hd], hv⟩
      · exact ⟨i, new, by rw [Function.update_self], hv⟩

end Overwrite

end InvertedIndex
