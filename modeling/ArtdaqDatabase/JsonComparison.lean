import ArtdaqDatabase.JsonValue
import ArtdaqDatabase.PartialViews

/-!
# Comparing JSON values

The comparison of `json_types`: values of one type, objects and arrays of one size and
then member by member and element by element.  Decimals are compared as the numbers they
are, so the comparison is given the number of each; `nan` has none, and equals nothing.
-/

namespace ArtdaqDatabase

open PartialViews

variable {δ : Type}

section Comparison

variable [DecidableEq δ] (number : String → Option δ)

/-- `operator==` of two doubles. -/
def decimalsEqual (first second : String) : Bool :=
  match number first, number second with
  | some m, some n => m = n
  | _, _ => false

mutual

/-- `operator==` of two values. -/
def valuesEqual : Value → Value → Bool
  | .object first, .object second =>
      first.length = second.length && membersEqual first second
  | .array first, .array second =>
      first.length = second.length && elementsEqual first second
  | .string first, .string second => first = second
  | .decimal first, .decimal second => decimalsEqual number first second
  | .integer first, .integer second => first = second
  | .boolean first, .boolean second => first = second
  | _, _ => false

/-- The loop over two arrays, up to the end of the first. -/
def elementsEqual : List Value → List Value → Bool
  | first :: firsts, second :: seconds =>
      valuesEqual first second && elementsEqual firsts seconds
  | _, _ => true

def membersEqual : List (String × Value) → List (String × Value) → Bool
  | (key, first) :: firsts, (key', second) :: seconds =>
      (key = key' && valuesEqual first second) && membersEqual firsts seconds
  | _, _ => true

end

end Comparison

/-! ## Equality of trees -/

mutual

/-- Trees are equal when their shapes are, and the leaves in the same places. -/
inductive SameTree (number : String → Option δ) : Value → Value → Prop
  | object {first second : Object} (h : List.Forall₂ (SameMember number) first second) :
      SameTree number (.object first) (.object second)
  | array {first second : List Value} (h : List.Forall₂ (SameTree number) first second) :
      SameTree number (.array first) (.array second)
  | string (text : String) : SameTree number (.string text) (.string text)
  | decimal {first second : String} {n : δ} (hfirst : number first = some n)
      (hsecond : number second = some n) : SameTree number (.decimal first) (.decimal second)
  | integer (n : ℤ) : SameTree number (.integer n) (.integer n)
  | boolean (flag : Bool) : SameTree number (.boolean flag) (.boolean flag)

inductive SameMember (number : String → Option δ) : String × Value → String × Value → Prop
  | mk (key : String) {first second : Value} (h : SameTree number first second) :
      SameMember number (key, first) (key, second)

end

variable {number : String → Option δ}

theorem sameMember_iff {a b : String × Value} :
    SameMember number a b ↔ a.1 = b.1 ∧ SameTree number a.2 b.2 := by
  obtain ⟨key, v⟩ := a
  obtain ⟨key', w⟩ := b
  constructor
  · intro h
    cases h with
    | mk _ h => exact ⟨rfl, h⟩
  · intro h
    have hkey : key = key' := h.1
    rw [← hkey]
    exact SameMember.mk key h.2

theorem sameTree_object_iff {first second : Object} :
    SameTree number (.object first) (.object second) ↔
      SameTable (SameTree number) first second := by
  constructor
  · intro h
    cases h with
    | object h => exact h.imp fun _ _ => sameMember_iff.1
  · intro h
    exact SameTree.object (h.imp fun _ _ => sameMember_iff.2)

theorem sameTree_array_iff {first second : List Value} :
    SameTree number (.array first) (.array second) ↔
      List.Forall₂ (SameTree number) first second := by
  constructor
  · intro h
    cases h with
    | array h => exact h
  · exact SameTree.array

section Decidable

variable [DecidableEq δ]

theorem decimalsEqual_iff {first second : String} :
    decimalsEqual number first second = true ↔
      SameTree number (.decimal first) (.decimal second) := by
  have hnumbers : SameTree number (.decimal first) (.decimal second) ↔
      ∃ n, number first = some n ∧ number second = some n := by
    constructor
    · intro h
      cases h with
      | decimal hfirst hsecond => exact ⟨_, hfirst, hsecond⟩
    · rintro ⟨n, hfirst, hsecond⟩
      exact SameTree.decimal hfirst hsecond
  rw [hnumbers, decimalsEqual]
  cases number first <;> cases number second <;> simp [eq_comm]

mutual

theorem valuesEqual_iff (v w : Value) : valuesEqual number v w = true ↔ SameTree number v w := by
  cases v with
  | object members =>
      cases w with
      | object members' =>
          rw [sameTree_object_iff, SameTable, ← membersEqual_iff, valuesEqual]
          simp
      | _ => exact iff_of_false (by simp [valuesEqual]) nofun
  | array values =>
      cases w with
      | array values' =>
          rw [sameTree_array_iff, ← elementsEqual_iff, valuesEqual]
          simp
      | _ => exact iff_of_false (by simp [valuesEqual]) nofun
  | string text =>
      cases w with
      | string text' =>
          rw [valuesEqual, decide_eq_true_iff]
          exact ⟨fun h => h ▸ SameTree.string text, fun h => by cases h; rfl⟩
      | _ => exact iff_of_false (by simp [valuesEqual]) nofun
  | decimal text =>
      cases w with
      | decimal text' => exact decimalsEqual_iff
      | _ => exact iff_of_false (by simp [valuesEqual]) nofun
  | integer n =>
      cases w with
      | integer n' =>
          rw [valuesEqual, decide_eq_true_iff]
          exact ⟨fun h => h ▸ SameTree.integer n, fun h => by cases h; rfl⟩
      | _ => exact iff_of_false (by simp [valuesEqual]) nofun
  | boolean flag =>
      cases w with
      | boolean flag' =>
          rw [valuesEqual, decide_eq_true_iff]
          exact ⟨fun h => h ▸ SameTree.boolean flag, fun h => by cases h; rfl⟩
      | _ => exact iff_of_false (by simp [valuesEqual]) nofun

theorem elementsEqual_iff (vs ws : List Value) :
    vs.length = ws.length ∧ elementsEqual number vs ws = true ↔
      List.Forall₂ (SameTree number) vs ws := by
  cases vs with
  | nil => cases ws <;> simp [elementsEqual]
  | cons v vs =>
      cases ws with
      | nil => simp
      | cons w ws =>
          rw [List.forall₂_cons, ← valuesEqual_iff v w, ← elementsEqual_iff vs ws,
            elementsEqual, List.length_cons, List.length_cons, Nat.add_right_cancel_iff,
            Bool.and_eq_true, and_left_comm]

theorem membersEqual_iff (vs ws : List (String × Value)) :
    vs.length = ws.length ∧ membersEqual number vs ws = true ↔
      List.Forall₂ (fun a b => a.1 = b.1 ∧ SameTree number a.2 b.2) vs ws := by
  cases vs with
  | nil => cases ws <;> simp [membersEqual]
  | cons entry vs =>
      obtain ⟨key, v⟩ := entry
      cases ws with
      | nil => simp
      | cons entry ws =>
          obtain ⟨key', w⟩ := entry
          rw [List.forall₂_cons, ← valuesEqual_iff v w, ← membersEqual_iff vs ws,
            membersEqual, List.length_cons, List.length_cons, Nat.add_right_cancel_iff,
            Bool.and_eq_true, Bool.and_eq_true, decide_eq_true_iff, and_left_comm]

end

end Decidable

/-! ## A partial equivalence -/

mutual

theorem sameTree_symm (v : Value) {w : Value} (h : SameTree number v w) :
    SameTree number w v := by
  cases v with
  | object members =>
      cases h with
      | object h => exact SameTree.object (sameMembers_symm members h)
  | array values =>
      cases h with
      | array h => exact SameTree.array (sameTrees_symm values h)
  | string text =>
      cases h with
      | string => exact SameTree.string text
  | decimal text =>
      cases h with
      | decimal hfirst hsecond => exact SameTree.decimal hsecond hfirst
  | integer n =>
      cases h with
      | integer => exact SameTree.integer n
  | boolean flag =>
      cases h with
      | boolean => exact SameTree.boolean flag

theorem sameTrees_symm (vs : List Value) {ws : List Value}
    (h : List.Forall₂ (SameTree number) vs ws) : List.Forall₂ (SameTree number) ws vs := by
  cases vs with
  | nil =>
      cases h with
      | nil => exact List.Forall₂.nil
  | cons v vs =>
      cases h with
      | cons hhead htail =>
          exact List.Forall₂.cons (sameTree_symm v hhead) (sameTrees_symm vs htail)

theorem sameMembers_symm (vs : Object) {ws : Object}
    (h : List.Forall₂ (SameMember number) vs ws) : List.Forall₂ (SameMember number) ws vs := by
  cases vs with
  | nil =>
      cases h with
      | nil => exact List.Forall₂.nil
  | cons entry vs =>
      obtain ⟨key, v⟩ := entry
      cases h with
      | cons hhead htail =>
          cases hhead with
          | mk _ hhead =>
              exact List.Forall₂.cons (SameMember.mk key (sameTree_symm v hhead))
                (sameMembers_symm vs htail)

end

mutual

theorem sameTree_trans (v : Value) {w u : Value} (hfirst : SameTree number v w)
    (hsecond : SameTree number w u) : SameTree number v u := by
  cases v with
  | object members =>
      cases hfirst with
      | object hfirst =>
          cases hsecond with
          | object hsecond => exact SameTree.object (sameMembers_trans members hfirst hsecond)
  | array values =>
      cases hfirst with
      | array hfirst =>
          cases hsecond with
          | array hsecond => exact SameTree.array (sameTrees_trans values hfirst hsecond)
  | string text =>
      cases hfirst with
      | string => exact hsecond
  | decimal text =>
      cases hfirst with
      | decimal hv hw =>
          cases hsecond with
          | decimal hw' hu =>
              rw [hw] at hw'
              exact SameTree.decimal (hv.trans hw') hu
  | integer n =>
      cases hfirst with
      | integer => exact hsecond
  | boolean flag =>
      cases hfirst with
      | boolean => exact hsecond

theorem sameTrees_trans (vs : List Value) {ws us : List Value}
    (hfirst : List.Forall₂ (SameTree number) vs ws)
    (hsecond : List.Forall₂ (SameTree number) ws us) :
    List.Forall₂ (SameTree number) vs us := by
  cases vs with
  | nil =>
      cases hfirst with
      | nil => exact hsecond
  | cons v vs =>
      cases hfirst with
      | cons hhead htail =>
          cases hsecond with
          | cons hhead' htail' =>
              exact List.Forall₂.cons (sameTree_trans v hhead hhead')
                (sameTrees_trans vs htail htail')

theorem sameMembers_trans (vs : Object) {ws us : Object}
    (hfirst : List.Forall₂ (SameMember number) vs ws)
    (hsecond : List.Forall₂ (SameMember number) ws us) :
    List.Forall₂ (SameMember number) vs us := by
  cases vs with
  | nil =>
      cases hfirst with
      | nil => exact hsecond
  | cons entry vs =>
      obtain ⟨key, v⟩ := entry
      cases hfirst with
      | cons hhead htail =>
          cases hsecond with
          | cons hhead' htail' =>
              cases hhead with
              | mk _ hhead =>
                  cases hhead' with
                  | mk _ hhead' =>
                      exact List.Forall₂.cons
                        (SameMember.mk key (sameTree_trans v hhead hhead'))
                        (sameMembers_trans vs htail htail')

end

mutual

/-- Without `nan` a tree is equal to itself. -/
theorem sameTree_refl (hnumber : ∀ text, number text ≠ none) (v : Value) :
    SameTree number v v := by
  cases v with
  | object members => exact SameTree.object (sameMembers_refl hnumber members)
  | array values => exact SameTree.array (sameTrees_refl hnumber values)
  | string text => exact SameTree.string text
  | decimal text =>
      obtain ⟨n, hn⟩ := Option.ne_none_iff_exists'.1 (hnumber text)
      exact SameTree.decimal hn hn
  | integer n => exact SameTree.integer n
  | boolean flag => exact SameTree.boolean flag

theorem sameTrees_refl (hnumber : ∀ text, number text ≠ none) (vs : List Value) :
    List.Forall₂ (SameTree number) vs vs := by
  cases vs with
  | nil => exact List.Forall₂.nil
  | cons v vs =>
      exact List.Forall₂.cons (sameTree_refl hnumber v) (sameTrees_refl hnumber vs)

theorem sameMembers_refl (hnumber : ∀ text, number text ≠ none) (vs : Object) :
    List.Forall₂ (SameMember number) vs vs := by
  cases vs with
  | nil => exact List.Forall₂.nil
  | cons entry vs =>
      obtain ⟨key, v⟩ := entry
      exact List.Forall₂.cons (SameMember.mk key (sameTree_refl hnumber v))
        (sameMembers_refl hnumber vs)

end

instance : Std.Symm (SameTree number) :=
  ⟨fun v _ => sameTree_symm v⟩

instance : IsTrans Value (SameTree number) :=
  ⟨fun v _ _ => sameTree_trans v⟩

end ArtdaqDatabase
