import Mathlib.Data.List.Basic

/-!
# Leftmost matches and marked texts

A pattern is given by the length of its match at the head of a list, if there is one, and
`search` finds the leftmost match.  A marked text says which parts are to be replaced, so
that a loop that searches and replaces can be compared with the replacement itself.
-/

namespace LeftmostSearch

variable {σ : Type*}

section Search

variable (size : List σ → Option ℕ)

/-- The position and the length of the leftmost match. -/
def search : List σ → Option (ℕ × ℕ)
  | [] => none
  | c :: rest =>
      match size (c :: rest) with
      | some n => some (0, n)
      | none => (search rest).map fun m => (m.1 + 1, m.2)

variable {size}

theorem search_cons_of_match {c : σ} {rest : List σ} {n : ℕ} (h : size (c :: rest) = some n) :
    search size (c :: rest) = some (0, n) := by
  rw [search, h]

theorem search_cons_of_none {c : σ} {rest : List σ} (h : size (c :: rest) = none) :
    search size (c :: rest) = (search size rest).map fun m => (m.1 + 1, m.2) := by
  rw [search, h]

/-- A match that is found is one, inside the text. -/
theorem search_eq_some {input : List σ} {position length : ℕ}
    (h : search size input = some (position, length)) :
    position < input.length ∧ size (input.drop position) = some length := by
  induction input generalizing position with
  | nil => cases h
  | cons c rest ih =>
      cases hsize : size (c :: rest) with
      | some n =>
          rw [search_cons_of_match hsize] at h
          cases h
          exact ⟨Nat.succ_pos _, hsize⟩
      | none =>
          rw [search_cons_of_none hsize, Option.map_eq_some_iff] at h
          obtain ⟨⟨position, n⟩, hm, ⟨⟩⟩ := h
          have ⟨hlt, hdrop⟩ := ih hm
          exact ⟨Nat.succ_lt_succ hlt, hdrop⟩

variable (size)

/-- No match starts in the word, whatever starts behind it. -/
def Silent (word input : List σ) : Prop :=
  search size (word ++ input) =
    (search size input).map fun m => (word.length + m.1, m.2)

variable {size}

theorem silent_nil (input : List σ) : Silent size [] input := by
  simp [Silent]

/-- One character more, at which no match starts. -/
theorem Silent.concat {word input : List σ} {c : σ} (h : Silent size word (c :: input))
    (hc : size (c :: input) = none) : Silent size (word ++ [c]) input := by
  unfold Silent at h ⊢
  rw [List.append_assoc, List.singleton_append, h, search_cons_of_none hc, Option.map_map]
  congr 1
  funext m
  simp only [Function.comp_apply, List.length_append, List.length_singleton, Prod.mk.injEq, and_true]
  omega

theorem silent_of_quiet {word : List σ} (hword : ∀ c ∈ word, ∀ rest, size (c :: rest) = none)
    (input : List σ) : Silent size word input := by
  induction word with
  | nil => exact silent_nil input
  | cons c word ih =>
      have hrest := ih fun d hd => hword d (List.mem_cons_of_mem c hd)
      unfold Silent at hrest ⊢
      rw [List.cons_append, search_cons_of_none (hword c List.mem_cons_self _), hrest,
        Option.map_map]
      congr 1
      funext m
      simp only [Function.comp_apply, List.length_cons, Prod.mk.injEq, and_true]
      omega

end Search

/-! ## Marked texts -/

/-- A character that is kept, or a directive. -/
inductive Piece (σ : Type*) where
  | kept (c : σ)
  | directive

/-- The text with the words of the directives. -/
def source (word : List σ) : List (Piece σ) → List σ
  | [] => []
  | .kept c :: rest => c :: source word rest
  | .directive :: rest => word ++ source word rest

/-- The text with the replacements of the directives, which are numbered. -/
def target (token : ℕ → List σ) (idx : ℕ) : List (Piece σ) → List σ
  | [] => []
  | .kept c :: rest => c :: target token idx rest
  | .directive :: rest => token idx ++ target token (idx + 1) rest

/-- The number of directives. -/
def directiveCount : List (Piece σ) → ℕ
  | [] => 0
  | .kept _ :: rest => directiveCount rest
  | .directive :: rest => directiveCount rest + 1

/-- Matches start only at directives. -/
def Clean (size : List σ → Option ℕ) (word : List σ) : List (Piece σ) → Prop
  | [] => True
  | .kept c :: rest => size (c :: source word rest) = none ∧ Clean size word rest
  | .directive :: rest => Clean size word rest

def decidableClean (size : List σ → Option ℕ) (word : List σ) :
    (pieces : List (Piece σ)) → Decidable (Clean size word pieces)
  | [] => instDecidableTrue
  | .kept c :: rest =>
      @instDecidableAnd _ _ (inferInstanceAs (Decidable (size (c :: source word rest) = none)))
        (decidableClean size word rest)
  | .directive :: rest => decidableClean size word rest

instance (size : List σ → Option ℕ) (word : List σ) (pieces : List (Piece σ)) :
    Decidable (Clean size word pieces) :=
  decidableClean size word pieces

/-- A text that begins with characters that begin no directive keeps them. -/
theorem exists_of_source_eq_append
    {mark : σ} {tail word rest : List σ} {pieces : List (Piece σ)} (hword : mark ∉ word)
    (h : source (mark :: tail) pieces = word ++ rest) (token : ℕ → List σ) (idx : ℕ) :
    ∃ more, target token idx pieces = word ++ more := by
  induction word generalizing pieces with
  | nil => exact ⟨_, rfl⟩
  | cons c word ih =>
      rw [List.mem_cons, not_or] at hword
      obtain ⟨hne, hnotMem⟩ := hword
      cases pieces with
      | nil => cases h
      | cons piece pieces =>
          cases piece with
          | directive =>
              rw [source, List.cons_append, List.cons_append, List.cons.injEq] at h
              exact absurd h.1 hne
          | kept d =>
              rw [source, List.cons_append, List.cons.injEq] at h
              obtain ⟨more, hmore⟩ := ih hnotMem h.2
              exact ⟨more, by rw [target, hmore, h.1, List.cons_append]⟩

end LeftmostSearch
