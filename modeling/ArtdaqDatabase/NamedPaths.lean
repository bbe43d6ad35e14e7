import Mathlib.Data.List.Infix

/-!
# Paths of names in a tree

A tree has a child under some names.  Putting a subtree at the end of a path changes
what is found below the path and nothing that lies beside it.
-/

namespace NamedPaths

/-- The children of a tree, and the exchange of a child that is there. -/
class Branching (κ τ : Type*) [DecidableEq κ] where
  child : κ → τ → Option τ
  graft : κ → τ → τ → τ
  child_graft : ∀ {k : κ} {t c : τ}, child k t = some c → ∀ (k' : κ) (c' : τ),
    child k' (graft k c' t) = if k' = k then some c' else child k' t
  graft_child : ∀ {k : κ} {t c : τ}, child k t = some c → graft k c t = t
  graft_graft : ∀ {k : κ} {t c : τ}, child k t = some c → ∀ c' c'' : τ,
    graft k c'' (graft k c' t) = graft k c'' t

variable {κ τ : Type*} [DecidableEq κ] [Branching κ τ]

open Branching

/-- The subtree at the end of a path. -/
def find : List κ → τ → Option τ
  | [], t => some t
  | k :: path, t => (child k t).bind (find path)

/-- Put a subtree at the end of a path that is there. -/
def put : List κ → τ → τ → τ
  | [], s, _ => s
  | k :: path, s, t =>
      match child k t with
      | some c => graft k (put path s c) t
      | none => t

@[simp]
theorem find_nil (t : τ) : find ([] : List κ) t = some t := rfl

theorem find_cons (k : κ) (path : List κ) (t : τ) :
    find (k :: path) t = (child k t).bind (find path) := rfl

theorem find_append (path rest : List κ) (t : τ) :
    find (path ++ rest) t = (find path t).bind (find rest) := by
  induction path generalizing t with
  | nil => rfl
  | cons k path ih =>
      rw [List.cons_append, find_cons, find_cons]
      cases child k t with
      | none => rfl
      | some c => exact ih c

theorem put_cons {k : κ} {t c : τ} (hchild : child k t = some c) (path : List κ) (s : τ) :
    put (k :: path) s t = graft k (put path s c) t := by
  simp only [put, hchild]

/-- Below the path, the new subtree is searched. -/
theorem find_put_below
    {path : List κ} {t s : τ} (hfound : find path t = some s) (s' : τ) (rest : List κ) :
    find (path ++ rest) (put path s' t) = find rest s' := by
  induction path generalizing t with
  | nil => rfl
  | cons k path ih =>
      rw [find_cons, Option.bind_eq_some_iff] at hfound
      obtain ⟨c, hchild, hrest⟩ := hfound
      rw [put_cons hchild, List.cons_append, find_cons, child_graft hchild, if_pos rfl]
      exact ih hrest

/-- Beside the path, nothing changes. -/
theorem find_put_beside
    {path other : List κ} {t s : τ} (hfound : find path t = some s) (s' : τ)
    (habove : ¬ other <+: path) (hbelow : ¬ path <+: other) :
    find other (put path s' t) = find other t := by
  induction path generalizing t other with
  | nil => exact absurd List.nil_prefix hbelow
  | cons k path ih =>
      rw [find_cons, Option.bind_eq_some_iff] at hfound
      obtain ⟨c, hchild, hrest⟩ := hfound
      cases other with
      | nil => exact absurd List.nil_prefix habove
      | cons k' other =>
          rw [put_cons hchild, find_cons, find_cons, child_graft hchild]
          by_cases hsame : k' = k
          · subst hsame
            rw [List.cons_prefix_cons, not_and] at habove hbelow
            rw [if_pos rfl, hchild]
            exact ih hrest (habove rfl) (hbelow rfl)
          · rw [if_neg hsame]

theorem put_self {path : List κ} {t s : τ} (hfound : find path t = some s) :
    put path s t = t := by
  induction path generalizing t with
  | nil =>
      rw [find_nil, Option.some.injEq] at hfound
      exact hfound.symm
  | cons k path ih =>
      rw [find_cons, Option.bind_eq_some_iff] at hfound
      obtain ⟨c, hchild, hrest⟩ := hfound
      rw [put_cons hchild, ih hrest, graft_child hchild]

theorem put_put {path : List κ} {t s : τ} (hfound : find path t = some s) (s' s'' : τ) :
    put path s'' (put path s' t) = put path s'' t := by
  induction path generalizing t with
  | nil => rfl
  | cons k path ih =>
      rw [find_cons, Option.bind_eq_some_iff] at hfound
      obtain ⟨c, hchild, hrest⟩ := hfound
      have hgrafted : child k (graft k (put path s' c) t) = some (put path s' c) := by
        rw [child_graft hchild, if_pos rfl]
      rw [put_cons hchild, put_cons hgrafted, ih hrest, graft_graft hchild, put_cons hchild]

end NamedPaths
