import Mathlib.Data.List.TakeWhile
import Mathlib.Tactic

/-!
# Removal that may be interrupted

A list is filtered in place: a value that stays changes places with the first of
the gap that the removed values leave.  When the test throws, the gap is not closed
yet, and the list holds all of its values, some of them in other places.
-/

namespace InterruptedRemoval

variable {α ε : Type*}

/-- The scan behind the values that stay and the gap. -/
def scan (test : α → Except ε Bool) (kept gap : List α) : List α → List α × Except ε Unit
  | [] => (kept, .ok ())
  | x :: rest =>
      match test x with
      | .ok true => scan test kept (gap ++ [x]) rest
      | .ok false => scan test (kept ++ [x]) (gap.rotate 1) rest
      | .error e => (kept ++ gap ++ x :: rest, .error e)

def removeIf (test : α → Except ε Bool) (xs : List α) : List α × Except ε Unit :=
  scan test [] [] xs

def answers (test : α → Except ε Bool) (x : α) : Bool :=
  (test x).isOk

/-- The value is to be removed. -/
def taken (test : α → Except ε Bool) (x : α) : Bool :=
  match test x with
  | .ok b => b
  | .error _ => false

section Removal

variable {test : α → Except ε Bool} {xs : List α}

theorem test_of_answers {x : α} (hx : answers test x = true) :
    test x = .ok (taken test x) := by
  unfold answers at hx
  unfold taken
  cases htest : test x with
  | ok b => rfl
  | error e => simp [htest, Except.isOk, Except.toBool] at hx

theorem exists_error {x : α} (hx : answers test x = false) :
    ∃ e, test x = .error e := by
  unfold answers at hx
  cases htest : test x with
  | ok b => simp [htest, Except.isOk, Except.toBool] at hx
  | error e => exact ⟨e, rfl⟩

theorem scan_of_answers (hxs : ∀ x ∈ xs, answers test x = true) (kept gap : List α) :
    scan test kept gap xs = (kept ++ xs.filter (fun x => !taken test x), .ok ()) := by
  induction xs generalizing kept gap with
  | nil => simp [scan]
  | cons x xs ih =>
      have hx := test_of_answers (hxs x (by simp))
      have hrest := ih fun y hy => hxs y (List.mem_cons_of_mem _ hy)
      cases htaken : taken test x with
      | true =>
          rw [htaken] at hx
          simp [scan, hx, hrest, htaken]
      | false =>
          rw [htaken] at hx
          simp [scan, hx, hrest, htaken]

theorem removeIf_of_answers (hxs : ∀ x ∈ xs, answers test x = true) :
    removeIf test xs = (xs.filter (fun x => !taken test x), .ok ()) :=
  scan_of_answers hxs [] []

/-- Where the test throws, the gap holds what was to be removed. -/
theorem scan_of_error
    {before : List α} (hbefore : ∀ x ∈ before, answers test x = true) {x : α} {e : ε}
    (hx : test x = .error e) (after kept gap : List α) :
    ∃ gap', gap'.Perm (gap ++ before.filter (taken test)) ∧
      scan test kept gap (before ++ x :: after) =
        (kept ++ before.filter (fun y => !taken test y) ++ gap' ++ x :: after, .error e) := by
  induction before generalizing kept gap with
  | nil => exact ⟨gap, by simp, by simp [scan, hx]⟩
  | cons y before ih =>
      have hy := test_of_answers (hbefore y (by simp))
      have hrest := ih fun z hz => hbefore z (List.mem_cons_of_mem _ hz)
      cases htaken : taken test y with
      | true =>
          rw [htaken] at hy
          obtain ⟨gap', hperm, hscan⟩ := hrest kept (gap ++ [y])
          refine ⟨gap', ?_, ?_⟩
          · simpa [htaken] using hperm
          · simpa [scan, hy, htaken] using hscan
      | false =>
          rw [htaken] at hy
          obtain ⟨gap', hperm, hscan⟩ := hrest (kept ++ [y]) (gap.rotate 1)
          refine ⟨gap', ?_, ?_⟩
          · have hrotate := (List.rotate_perm gap 1).append_right (before.filter (taken test))
            simpa [htaken] using hperm.trans hrotate
          · simpa [scan, hy, htaken] using hscan

/-- The values up to the first that the test throws at. -/
def tested (test : α → Except ε Bool) (xs : List α) : List α :=
  xs.takeWhile (answers test)

theorem answers_of_mem_tested {x : α} (hx : x ∈ tested test xs) : answers test x = true :=
  List.mem_takeWhile_imp hx

theorem tested_append (test : α → Except ε Bool) (xs : List α) :
    tested test xs ++ xs.dropWhile (answers test) = xs :=
  List.takeWhile_append_dropWhile

/-- The scan ends at a first value that the test throws at. -/
theorem exists_error_of_not_answers (hxs : ¬ ∀ x ∈ xs, answers test x = true) :
    ∃ x after e, xs.dropWhile (answers test) = x :: after ∧ test x = .error e := by
  have hsplit := tested_append test xs
  cases hdrop : xs.dropWhile (answers test) with
  | nil =>
      rw [hdrop, List.append_nil] at hsplit
      exact absurd (fun x hx => answers_of_mem_tested (hsplit.symm ▸ hx)) hxs
  | cons x after =>
      have hhead := List.head_dropWhile_not (answers test) (l := xs) (by simp [hdrop])
      have hfalse : answers test x = false := by simpa [hdrop] using hhead
      obtain ⟨e, he⟩ := exists_error hfalse
      exact ⟨x, after, e, rfl, he⟩

/-- What an interrupted scan leaves: the values that stay, then the others, then
what it has not seen. -/
theorem removeIf_of_not_answers (hxs : ¬ ∀ x ∈ xs, answers test x = true) :
    ∃ gap e, gap.Perm ((tested test xs).filter (taken test)) ∧
      removeIf test xs =
        ((tested test xs).filter (fun x => !taken test x) ++ gap ++
          xs.dropWhile (answers test), .error e) := by
  obtain ⟨x, after, e, hdrop, he⟩ := exists_error_of_not_answers hxs
  have htested : ∀ x ∈ tested test xs, answers test x = true := fun x hx =>
    answers_of_mem_tested hx
  obtain ⟨gap, hperm, hscan⟩ := scan_of_error htested he after [] []
  have hsplit := tested_append test xs
  rw [hdrop] at hsplit ⊢
  rw [hsplit] at hscan
  exact ⟨gap, e, by simpa using hperm, by simpa [removeIf] using hscan⟩

theorem removeIf_snd_eq_ok_iff :
    (removeIf test xs).2 = .ok () ↔ ∀ x ∈ xs, answers test x = true := by
  constructor
  · intro hok
    by_contra hnot
    obtain ⟨gap, e, -, hrun⟩ := removeIf_of_not_answers hnot
    rw [hrun] at hok
    cases hok
  · intro hxs
    rw [removeIf_of_answers hxs]

/-- An interrupted removal removes nothing. -/
theorem removeIf_perm_of_not_answers (hxs : ¬ ∀ x ∈ xs, answers test x = true) :
    (removeIf test xs).1.Perm xs := by
  obtain ⟨gap, e, hgap, hrun⟩ := removeIf_of_not_answers hxs
  have htested : ((tested test xs).filter (fun x => !taken test x) ++ gap).Perm
      (tested test xs) := by
    have hboth := (List.perm_append_comm.trans
      (List.filter_append_perm (taken test) (tested test xs)))
    exact (hgap.append_left _).trans hboth
  rw [hrun]
  calc (tested test xs).filter (fun x => !taken test x) ++ gap ++ xs.dropWhile (answers test)
      |>.Perm (tested test xs ++ xs.dropWhile (answers test)) := htested.append_right _
    _ = xs := tested_append test xs

theorem mem_of_mem_removeIf {x : α} (hx : x ∈ (removeIf test xs).1) : x ∈ xs := by
  by_cases hxs : ∀ y ∈ xs, answers test y = true
  · rw [removeIf_of_answers hxs] at hx
    exact List.mem_of_mem_filter hx
  · exact (removeIf_perm_of_not_answers hxs).mem_iff.1 hx

theorem scan_of_all_taken
    {before : List α} (hbefore : ∀ x ∈ before, test x = .ok true) (kept gap rest : List α) :
    scan test kept gap (before ++ rest) = scan test kept (gap ++ before) rest := by
  induction before generalizing gap with
  | nil => simp
  | cons x before ih =>
      have hx := hbefore x (by simp)
      have hrest := ih fun y hy => hbefore y (List.mem_cons_of_mem _ hy)
      simp [scan, hx, hrest]

/-- Values to remove that come last are passed over without a move. -/
theorem scan_of_pairwise
    {before : List α} (hbefore : ∀ x ∈ before, answers test x = true)
    (hlast : before.Pairwise fun x y => taken test x = true → taken test y = true)
    (kept rest : List α) :
    ∃ stay gap, before = stay ++ gap ∧
      scan test kept [] (before ++ rest) = scan test (kept ++ stay) gap rest := by
  induction before generalizing kept with
  | nil => exact ⟨[], [], rfl, by simp⟩
  | cons x before ih =>
      have hx := test_of_answers (hbefore x (by simp))
      have hanswers : ∀ y ∈ before, answers test y = true :=
        fun y hy => hbefore y (List.mem_cons_of_mem _ hy)
      rw [List.pairwise_cons] at hlast
      cases htaken : taken test x with
      | true =>
          have hall : ∀ y ∈ x :: before, test y = .ok true := by
            intro y hy
            rcases List.mem_cons.1 hy with rfl | hy
            · rw [hx, htaken]
            · rw [test_of_answers (hanswers y hy), hlast.1 y hy htaken]
          exact ⟨[], x :: before, rfl, by simpa using scan_of_all_taken hall kept [] rest⟩
      | false =>
          obtain ⟨stay, gap, hsplit, hscan⟩ := ih hanswers hlast.2 (kept ++ [x])
          rw [htaken] at hx
          refine ⟨x :: stay, gap, by rw [hsplit, List.cons_append], ?_⟩
          simpa [scan, hx] using hscan

/-- An interrupted removal leaves the list alone when the values to remove come
last in what it has seen. -/
theorem removeIf_eq_self_iff (hxs : ¬ ∀ x ∈ xs, answers test x = true) :
    (removeIf test xs).1 = xs ↔
      (tested test xs).Pairwise fun x y => taken test x = true → taken test y = true := by
  constructor
  · intro hsame
    obtain ⟨gap, e, hgap, hrun⟩ := removeIf_of_not_answers hxs
    rw [hrun] at hsame
    have hparts : (tested test xs).filter (fun x => !taken test x) ++ gap = tested test xs :=
      List.append_cancel_right (hsame.trans (tested_append test xs).symm)
    have htaken : ∀ x ∈ gap, taken test x = true := by
      intro x hx
      exact (List.mem_filter.1 (hgap.mem_iff.1 hx)).2
    rw [← hparts, List.pairwise_append]
    refine ⟨?_, ?_, fun x _ y hy _ => htaken y hy⟩
    · refine List.pairwise_of_forall_mem_list fun x hx _ _ htrue => ?_
      have hfalse := (List.mem_filter.1 hx).2
      simp [htrue] at hfalse
    · exact List.pairwise_of_forall_mem_list fun _ _ y hy _ => htaken y hy
  · intro hlast
    obtain ⟨x, after, e, hdrop, he⟩ := exists_error_of_not_answers hxs
    obtain ⟨stay, gap, htested, hscan⟩ :=
      scan_of_pairwise (fun x hx => answers_of_mem_tested hx) hlast [] (x :: after)
    have hsplit := tested_append test xs
    rw [hdrop] at hsplit
    rw [hsplit] at hscan
    rw [removeIf, hscan]
    simp only [scan, he, List.nil_append]
    rw [← htested, hsplit]

end Removal

end InterruptedRemoval
