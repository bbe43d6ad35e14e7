import ArtdaqDatabase.OrderedTable

/-!
# Partial views

A comparison may look at a part of a value only, and may fail where that part is not
what it expects.  A view splits the sameness of two values into what is seen and what
is not, and says which values can be read.  Views of lists and of tables are built from
views of what they hold.
-/

namespace PartialViews

open OrderedTable

variable {α β ε κ ρ : Type*}

structure View (same : α → α → Prop) where
  /-- The parts that are seen are the same. -/
  alike : α → α → Prop
  unseen : α → α → Prop
  readable : α → Prop
  same_iff : ∀ x y, same x y ↔ alike x y ∧ unseen x y
  symm : ∀ x y, alike x y → alike y x
  trans : ∀ x y z, alike x y → alike y z → alike x z
  readable_of_alike : ∀ x y, alike x y → readable x → readable y

variable {same : α → α → Prop}

/-! ## What a view accepts -/

/-- The values can be read and look the same. -/
def View.Accepts (V : View same) (x y : α) : Prop :=
  V.alike x y ∧ V.readable x

theorem View.Accepts.symm {V : View same} {x y : α} (h : V.Accepts x y) : V.Accepts y x :=
  ⟨V.symm x y h.1, V.readable_of_alike x y h.1 h.2⟩

theorem View.Accepts.trans
    {V : View same} {x y z : α} (hfirst : V.Accepts x y) (hsecond : V.Accepts y z) :
    V.Accepts x z :=
  ⟨V.trans x y z hfirst.1 hsecond.1, hfirst.2⟩

theorem View.accepts_self_iff {V : View same} {x : α} (hself : same x x) :
    V.Accepts x x ↔ V.readable x :=
  and_iff_right ((V.same_iff x x).1 hself).1

/-- A view tells the same from the different unless one thing alone goes wrong with
values that look the same. -/
theorem View.accepts_iff_same_iff (V : View same) (x y : α) :
    (V.Accepts x y ↔ same x y) ↔ (V.alike x y → (V.readable x ↔ V.unseen x y)) := by
  rw [V.same_iff x y, View.Accepts]
  exact and_congr_right_iff

/-! ## Views of a value -/

/-- Everything is seen, and values of some kind can be read. -/
def View.guarded
    [Std.Symm same] [IsTrans α same] (readable : α → Prop)
    (hreadable : ∀ x y, same x y → readable x → readable y) : View same where
  alike := same
  unseen := fun _ _ => True
  readable := readable
  same_iff := fun _ _ => (and_iff_left trivial).symm
  symm := fun _ _ h => Std.Symm.symm _ _ h
  trans := fun _ _ _ hfirst hsecond => IsTrans.trans _ _ _ hfirst hsecond
  readable_of_alike := hreadable

def View.whole [Std.Symm same] [IsTrans α same] : View same :=
  View.guarded (fun _ => True) fun _ _ _ _ => trivial

/-- Nothing is seen. -/
def View.hidden (same : α → α → Prop) : View same where
  alike := fun _ _ => True
  unseen := same
  readable := fun _ => True
  same_iff := fun _ _ => (and_iff_right trivial).symm
  symm := fun _ _ _ => trivial
  trans := fun _ _ _ _ _ => trivial
  readable_of_alike := fun _ _ _ _ => trivial

/-! ## Views of a list -/

theorem forall₂_and_iff {r s : α → α → Prop} {xs ys : List α} :
    List.Forall₂ (fun x y => r x y ∧ s x y) xs ys ↔
      List.Forall₂ r xs ys ∧ List.Forall₂ s xs ys := by
  induction xs generalizing ys with
  | nil => cases ys <;> simp
  | cons x xs ih =>
      cases ys with
      | nil => simp
      | cons y ys =>
          rw [List.forall₂_cons, List.forall₂_cons, List.forall₂_cons, ih]
          exact and_and_and_comm

theorem forall₂_trans
    {r : α → α → Prop} (htrans : ∀ x y z, r x y → r y z → r x z) {xs ys zs : List α}
    (hfirst : List.Forall₂ r xs ys) (hsecond : List.Forall₂ r ys zs) :
    List.Forall₂ r xs zs := by
  induction hfirst generalizing zs with
  | nil => exact hsecond
  | cons hxy _ ih =>
      cases hsecond with
      | cons hyz hrest => exact List.Forall₂.cons (htrans _ _ _ hxy hyz) (ih hrest)

theorem forall_mem_of_forall₂
    {r : α → α → Prop} {p : α → Prop} (hp : ∀ x y, r x y → p x → p y)
    {xs ys : List α} (h : List.Forall₂ r xs ys) (hxs : ∀ x ∈ xs, p x) : ∀ y ∈ ys, p y := by
  induction h with
  | nil => exact hxs
  | cons hxy _ ih =>
      rw [List.forall_mem_cons] at hxs ⊢
      exact ⟨hp _ _ hxy hxs.1, ih hxs.2⟩

/-- The elements one after the other. -/
def View.list (V : View same) : View (List.Forall₂ same) where
  alike := List.Forall₂ V.alike
  unseen := List.Forall₂ V.unseen
  readable := fun xs => ∀ x ∈ xs, V.readable x
  same_iff := by
    intro xs ys
    rw [← forall₂_and_iff]
    constructor
    · exact List.Forall₂.imp fun x y => (V.same_iff x y).1
    · exact List.Forall₂.imp fun x y => (V.same_iff x y).2
  symm := fun _ _ h => (h.imp V.symm).flip
  trans := fun _ _ _ => forall₂_trans V.trans
  readable_of_alike := fun _ _ => forall_mem_of_forall₂ V.readable_of_alike

theorem View.list_accepts_iff {V : View same} {xs ys : List α} :
    V.list.Accepts xs ys ↔ List.Forall₂ V.Accepts xs ys := by
  have hboth : List.Forall₂ V.Accepts xs ys ↔
      List.Forall₂ (fun x y => V.readable x ∧ V.alike x y) xs ys :=
    ⟨List.Forall₂.imp fun _ _ => And.symm, List.Forall₂.imp fun _ _ => And.symm⟩
  rw [hboth, List.forall₂_and_left]
  exact and_comm

/-- The walk over two lists up to the first difference, over the shorter of them. -/
def firstDifference (compare : α → α → Except ε (Option ρ)) :
    List α → List α → Except ε (Option ρ)
  | x :: xs, y :: ys => do
      match ← compare x y with
      | none => firstDifference compare xs ys
      | some difference => return some difference
  | _, _ => return none

theorem firstDifference_eq_none_iff
    {compare : α → α → Except ε (Option ρ)} {xs ys : List α} (hlength : xs.length = ys.length) :
    firstDifference compare xs ys = .ok none ↔
      List.Forall₂ (fun x y => compare x y = .ok none) xs ys := by
  induction xs generalizing ys with
  | nil =>
      cases ys with
      | nil => simp [firstDifference, pure, Except.pure]
      | cons y ys => simp at hlength
  | cons x xs ih =>
      cases ys with
      | nil => simp at hlength
      | cons y ys =>
          rw [firstDifference, List.forall₂_cons,
            ← ih (by simpa using hlength)]
          cases hcompare : compare x y with
          | error e => simp [bind, Except.bind]
          | ok found => cases found <;> simp [bind, Except.bind, pure, Except.pure]

/-! ## Views of a table -/

theorem rel_and_iff {r s : α → α → Prop} {a b : Option α} :
    Option.Rel (fun x y => r x y ∧ s x y) a b ↔ Option.Rel r a b ∧ Option.Rel s a b := by
  cases a <;> cases b <;> simp

theorem rel_congr {r s : α → α → Prop} (h : ∀ x y, r x y ↔ s x y) {a b : Option α} :
    Option.Rel r a b ↔ Option.Rel s a b := by
  cases a <;> cases b <;> simp [h]

theorem rel_symm {r : α → α → Prop} (hsymm : ∀ x y, r x y → r y x) {a b : Option α}
    (h : Option.Rel r a b) : Option.Rel r b a := by
  cases h with
  | some hab => exact Option.Rel.some (hsymm _ _ hab)
  | none => exact Option.Rel.none

theorem rel_trans
    {r : α → α → Prop} (htrans : ∀ x y z, r x y → r y z → r x z) {a b c : Option α}
    (hfirst : Option.Rel r a b) (hsecond : Option.Rel r b c) : Option.Rel r a c := by
  cases hfirst with
  | some hab =>
      cases hsecond with
      | some hbc => exact Option.Rel.some (htrans _ _ _ hab hbc)
  | none => exact hsecond

/-- The view of what is found under a key. -/
abbrev Part (κ : Type*) (same : α → α → Prop) := κ × View same

section Fields

variable {σ : Type*} (get : κ → σ → Option α)

/-- What is found under the keys of the parts is the same. -/
def SameParts (parts : List (Part κ same)) (s t : σ) : Prop :=
  ∀ part ∈ parts, Option.Rel same (get part.1 s) (get part.1 t)

/-- The parts one after the other, which all have to be there. -/
def View.fields (parts : List (Part κ same)) : View (SameParts get parts) where
  alike := fun s t => ∀ part ∈ parts, Option.Rel part.2.alike (get part.1 s) (get part.1 t)
  unseen := fun s t => ∀ part ∈ parts, Option.Rel part.2.unseen (get part.1 s) (get part.1 t)
  readable := fun s => ∀ part ∈ parts, ∃ x, get part.1 s = some x ∧ part.2.readable x
  same_iff := by
    intro s t
    rw [← forall₂_and]
    exact forall₂_congr fun part _ => (rel_congr part.2.same_iff).trans rel_and_iff
  symm := fun _ _ h part hpart => rel_symm part.2.symm (h part hpart)
  trans := fun _ _ _ hfirst hsecond part hpart =>
    rel_trans part.2.trans (hfirst part hpart) (hsecond part hpart)
  readable_of_alike := by
    intro s t halike hreadable part hpart
    obtain ⟨x, hx, hread⟩ := hreadable part hpart
    have hrel := halike part hpart
    rw [hx] at hrel
    cases ht : get part.1 t with
    | none =>
        rw [ht] at hrel
        cases hrel
    | some y =>
        rw [ht, Option.rel_some_some] at hrel
        exact ⟨y, rfl, part.2.readable_of_alike x y hrel hread⟩

theorem View.fields_accepts_iff {parts : List (Part κ same)} {s t : σ} :
    (View.fields get parts).Accepts s t ↔
      ∀ part ∈ parts, ∃ x y, get part.1 s = some x ∧ get part.1 t = some y ∧
        part.2.Accepts x y := by
  constructor
  · rintro ⟨halike, hreadable⟩ part hpart
    obtain ⟨x, hx, hread⟩ := hreadable part hpart
    have hrel := halike part hpart
    rw [hx] at hrel
    cases ht : get part.1 t with
    | none =>
        rw [ht] at hrel
        cases hrel
    | some y =>
        rw [ht, Option.rel_some_some] at hrel
        exact ⟨x, y, hx, rfl, hrel, hread⟩
  · intro h
    constructor
    · intro part hpart
      obtain ⟨x, y, hx, hy, haccepts⟩ := h part hpart
      rw [hx, hy]
      exact Option.Rel.some haccepts.1
    · intro part hpart
      obtain ⟨x, y, hx, -, haccepts⟩ := h part hpart
      exact ⟨x, hx, haccepts.2⟩

end Fields

variable [DecidableEq κ]

/-- The keys are the same in order, and so are the values. -/
def SameTable (same : α → α → Prop) : Table κ α → Table κ α → Prop :=
  List.Forall₂ fun a b => a.1 = b.1 ∧ same a.2 b.2

/-- The table with one value under all of the keys. -/
def blanked (blank : α) (keys : List κ) (t : Table κ α) : Table κ α :=
  keys.foldl (fun t k => set k blank t) t

/-- Tables are the same when they are so at one key and with a fixed value there. -/
theorem sameTable_iff_set {blank : α} (hblank : same blank blank) (k : κ) (t u : Table κ α) :
    SameTable same t u ↔
      Option.Rel same (lookup k t) (lookup k u) ∧
        SameTable same (set k blank t) (set k blank u) := by
  unfold SameTable
  induction t generalizing u with
  | nil =>
      cases u with
      | nil => simp [OrderedTable.set, hblank]
      | cons entry u =>
          obtain ⟨b, y⟩ := entry
          by_cases hb : b = k
          · simp [lookup, hb]
          · simp [OrderedTable.set, hb, Ne.symm hb]
  | cons entry t ih =>
      obtain ⟨a, x⟩ := entry
      cases u with
      | nil =>
          by_cases ha : a = k
          · simp [lookup, ha]
          · simp [OrderedTable.set, ha]
      | cons entry u =>
          obtain ⟨b, y⟩ := entry
          by_cases ha : a = k
          · by_cases hb : b = k
            · simp [lookup, OrderedTable.set, ha, hb, hblank]
            · simp [lookup, OrderedTable.set, ha, hb, Ne.symm hb]
          · by_cases hb : b = k
            · simp [OrderedTable.set, ha, hb]
            · simp only [lookup, OrderedTable.set, if_neg ha, if_neg hb, List.forall₂_cons, ih u]
              exact and_left_comm

theorem sameTable_iff_blanked
    {blank : α} (hblank : same blank blank) (keys : List κ) (t u : Table κ α) :
    SameTable same t u ↔
      (∀ k ∈ keys, Option.Rel same (lookup k t) (lookup k u)) ∧
        SameTable same (blanked blank keys t) (blanked blank keys u) := by
  induction keys generalizing t u with
  | nil => simp [blanked]
  | cons k keys ih =>
      have hrest : Option.Rel same (lookup k t) (lookup k u) →
          ((∀ k' ∈ keys, Option.Rel same (lookup k' (set k blank t))
              (lookup k' (set k blank u))) ↔
            ∀ k' ∈ keys, Option.Rel same (lookup k' t) (lookup k' u)) := by
        intro hk
        apply forall₂_congr
        intro k' _
        by_cases hk' : k' = k
        · subst hk'
          rw [lookup_set_self, lookup_set_self]
          exact iff_of_true (Option.Rel.some hblank) hk
        · rw [lookup_set_of_ne hk', lookup_set_of_ne hk']
      rw [sameTable_iff_set hblank k t u, ih (set k blank t) (set k blank u),
        List.forall_mem_cons, and_assoc]
      apply and_congr_right
      intro hk
      rw [hrest hk]
      rfl

/-- The parts of a table, where the rest of it goes unseen. -/
def View.table (parts : List (Part κ same)) (blank : α) (hblank : same blank blank) :
    View (SameTable (κ := κ) same) where
  alike := (View.fields lookup parts).alike
  unseen := fun t u => (View.fields lookup parts).unseen t u ∧
    SameTable same (blanked blank (parts.map Prod.fst) t) (blanked blank (parts.map Prod.fst) u)
  readable := (View.fields lookup parts).readable
  same_iff := by
    intro t u
    have hfields := (View.fields lookup parts).same_iff t u
    rw [sameTable_iff_blanked hblank (parts.map Prod.fst), List.forall_mem_map, ← and_assoc,
      ← hfields]
    rfl
  symm := (View.fields lookup parts).symm
  trans := (View.fields lookup parts).trans
  readable_of_alike := (View.fields lookup parts).readable_of_alike

/-! ## Views of the values of a kind -/

section Within

variable {same' : β → β → Prop}

/-- What is of the kind is seen through the view; nothing else can be read. -/
def View.within
    [Std.Symm same] [IsTrans α same] (V : View same') (decode : α → Option β)
    (hsame : ∀ x y, same x y → Option.Rel same' (decode x) (decode y))
    (hencode : ∀ x y a b, decode x = some a → decode y = some b → same' a b → same x y) :
    View same where
  alike := fun x y => Option.Rel V.alike (decode x) (decode y) ∧ (decode x = none → same x y)
  unseen := fun x y => Option.Rel V.unseen (decode x) (decode y)
  readable := fun x => ∃ a, decode x = some a ∧ V.readable a
  same_iff := by
    intro x y
    have hkind := hsame x y
    cases hx : decode x with
    | none =>
        cases hy : decode y with
        | none => simp
        | some b => simpa [hx, hy] using hkind
    | some a =>
        cases hy : decode y with
        | none => simpa [hx, hy] using hkind
        | some b =>
            have hback := hencode x y a b hx hy
            rw [hx, hy, Option.rel_some_some] at hkind
            simpa [← V.same_iff a b] using ⟨hkind, hback⟩
  symm := by
    rintro x y ⟨halike, hnone⟩
    refine ⟨rel_symm V.symm halike, fun hy => Std.Symm.symm _ _ (hnone ?_)⟩
    rw [hy] at halike
    cases hx : decode x with
    | none => rfl
    | some a =>
        rw [hx] at halike
        cases halike
  trans := by
    rintro x y z ⟨hfirst, hnone⟩ ⟨hsecond, hnone'⟩
    refine ⟨rel_trans V.trans hfirst hsecond, fun hx => ?_⟩
    have hy : decode y = none := by
      rw [hx] at hfirst
      cases hy : decode y with
      | none => rfl
      | some b =>
          rw [hy] at hfirst
          cases hfirst
    exact IsTrans.trans _ _ _ (hnone hx) (hnone' hy)
  readable_of_alike := by
    rintro x y ⟨halike, -⟩ ⟨a, hx, hreadable⟩
    rw [hx] at halike
    cases hy : decode y with
    | none =>
        rw [hy] at halike
        cases halike
    | some b =>
        rw [hy, Option.rel_some_some] at halike
        exact ⟨b, rfl, V.readable_of_alike a b halike hreadable⟩

theorem View.within_accepts_iff
    [Std.Symm same] [IsTrans α same] {V : View same'} {decode : α → Option β}
    {hsame : ∀ x y, same x y → Option.Rel same' (decode x) (decode y)}
    {hencode : ∀ x y a b, decode x = some a → decode y = some b → same' a b → same x y}
    {x y : α} :
    (V.within decode hsame hencode).Accepts x y ↔
      ∃ a b, decode x = some a ∧ decode y = some b ∧ V.Accepts a b := by
  constructor
  · rintro ⟨⟨halike, -⟩, a, hx, hreadable⟩
    rw [hx] at halike
    cases hy : decode y with
    | none =>
        rw [hy] at halike
        cases halike
    | some b =>
        rw [hy, Option.rel_some_some] at halike
        exact ⟨a, b, hx, rfl, halike, hreadable⟩
  · rintro ⟨a, b, hx, hy, halike, hreadable⟩
    refine ⟨⟨?_, fun hnone => ?_⟩, a, hx, hreadable⟩
    · rw [hx, hy]
      exact Option.Rel.some halike
    · rw [hx] at hnone
      cases hnone

end Within

end PartialViews
