import Mathlib.Data.List.Basic
import Mathlib.Tactic

/-!
# Memory with bounds

The cells of a buffer, read and written by position.  An access outside of the buffer
has no result, so a computation with a result has stayed inside.
-/

namespace BoundedMemory

variable {α : Type*}

abbrev Memory (α : Type*) := List α

def load (m : Memory α) (i : ℕ) : Option α :=
  m[i]?

def store (m : Memory α) (i : ℕ) (a : α) : Option (Memory α) :=
  if i < m.length then some (m.set i a) else none

/-- `memmove`: the source is read before anything is written. -/
def move (m : Memory α) (dst src n : ℕ) : Option (Memory α) :=
  if src + n ≤ m.length ∧ dst + n ≤ m.length then
    some (m.take dst ++ (m.drop src).take n ++ m.drop (dst + n))
  else none

/-- `memchr`: the first cell with the value between two positions. -/
def find [DecidableEq α] (m : Memory α) (a : α) (start finish : ℕ) : Option (Option ℕ) :=
  if start ≤ finish ∧ finish ≤ m.length then
    some ((((m.drop start).take (finish - start)).findIdx? (· = a)).map (start + ·))
  else none

/-- `std::string::resize`, which fills up with the given value. -/
def resize (filler : α) (m : Memory α) (n : ℕ) : Memory α :=
  m.take n ++ List.replicate (n - m.length) filler

theorem load_append (pre : List α) (a : α) (post : List α) :
    load (pre ++ a :: post) pre.length = some a := by
  simp [load]

theorem store_append (pre : List α) (a b : α) (post : List α) :
    store (pre ++ a :: post) pre.length b = some (pre ++ b :: post) := by
  simp [store]

/-- A word is moved to the front of a gap; what stands behind it stays. -/
theorem move_append (pre gap word post : List α) :
    move (pre ++ gap ++ word ++ post) pre.length (pre ++ gap).length word.length =
      some (pre ++ word ++ (gap ++ word ++ post).drop word.length) := by
  have hsource : ((pre ++ gap ++ word ++ post).drop (pre ++ gap).length).take word.length =
      word := by
    rw [List.append_assoc, List.drop_left, List.take_left]
  have hfront : (pre ++ gap ++ word ++ post).take pre.length = pre := by
    rw [List.append_assoc, List.append_assoc, List.take_left]
  have hback : (pre ++ gap ++ word ++ post).drop (pre.length + word.length) =
      (gap ++ word ++ post).drop word.length := by
    rw [← List.drop_drop, List.append_assoc, List.append_assoc, List.drop_left,
      ← List.append_assoc]
  have hbounds : (pre ++ gap).length + word.length ≤ (pre ++ gap ++ word ++ post).length ∧
      pre.length + word.length ≤ (pre ++ gap ++ word ++ post).length := by
    simp only [List.length_append]
    omega
  rw [move, if_pos hbounds, hsource, hfront, hback]

section Find

variable [DecidableEq α] {a : α}

theorem find_append
    (pre : List α) {part : List α} (hpart : a ∉ part) (post : List α) :
    find (pre ++ (part ++ a :: post)) a pre.length (pre ++ (part ++ a :: post)).length =
      some (some (pre.length + part.length)) := by
  have hbounds : pre.length ≤ (pre ++ (part ++ a :: post)).length := by simp
  have hindex : (part ++ a :: post).findIdx? (· = a) = some part.length := by
    rw [List.findIdx?_append]
    have hnone : part.findIdx? (· = a) = none := by
      rw [List.findIdx?_eq_none_iff]
      intro b hb
      exact decide_eq_false fun h => hpart (h ▸ hb)
    simp [hnone, List.findIdx?_cons]
  rw [find, if_pos ⟨hbounds, le_rfl⟩, List.drop_left, List.take_of_length_le (by simp), hindex]
  rfl

theorem find_none (pre : List α) {part : List α} (hpart : a ∉ part) :
    find (pre ++ part) a pre.length (pre ++ part).length = some none := by
  have hbounds : pre.length ≤ (pre ++ part).length := by simp
  have hindex : part.findIdx? (· = a) = none := by
    rw [List.findIdx?_eq_none_iff]
    intro b hb
    exact decide_eq_false fun h => hpart (h ▸ hb)
  rw [find, if_pos ⟨hbounds, le_rfl⟩, List.drop_left, List.take_of_length_le (by simp), hindex]
  rfl

end Find

end BoundedMemory
