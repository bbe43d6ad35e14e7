import Mathlib.Computability.Language
import Mathlib.Tactic

/-!
# Ordered choice

Parsers that take a prefix of their input or fail: sequencing is the bind of
the state monad over `Option`, and `p <|> q` tries `q` only where `p` fails,
from the same input.  A parser is compared with a language in two directions:
what it takes is a word of the language, and it takes every word that is
followed by an admissible rest.  Each combinator has one rule for either
direction.
-/

namespace ArtdaqDatabase

open scoped Computability

abbrev Scanner (σ : Type) (α : Type) := StateT (List σ) Option α

namespace Scanner

section

variable {σ α β : Type}

/-! ## The combinators -/

/-- One symbol of a kind. -/
def satisfy (kind : σ → Bool) : Scanner σ σ
  | [] => none
  | c :: input => if kind c then some (c, input) else none

/-- Every leading symbol of a kind is passed over. -/
def skipWhile (kind : σ → Bool) : Scanner σ Unit :=
  fun input => some ((), input.dropWhile kind)

def manyWithin (p : Scanner σ α) : ℕ → List σ → List α × List σ
  | 0, input => ([], input)
  | fuel + 1, input =>
      match p input with
      | none => ([], input)
      | some (a, rest) => (a :: (manyWithin p fuel rest).1, (manyWithin p fuel rest).2)

/-- The Kleene star: `p` as often as it succeeds. -/
def many (p : Scanner σ α) : Scanner σ (List α) :=
  fun input => some (manyWithin p input.length input)

/-- The plus: `p` at least once. -/
def many1 (p : Scanner σ α) : Scanner σ (List α) := do
  let a ← p
  let as ← many p
  return a :: as

/-- The list operator: `p` at least once, separated by `separator`. -/
def sepBy1 (p : Scanner σ α) (separator : Scanner σ β) : Scanner σ (List α) := do
  let a ← p
  let as ← many (separator >>= fun _ => p)
  return a :: as

/-- The optional operator. -/
def orDefault (p : Scanner σ α) (a : α) : Scanner σ α :=
  p <|> pure a

/-- The not-predicate: nothing is taken. -/
def notAhead (p : Scanner σ β) : Scanner σ Unit :=
  fun input => if (p input).isSome then none else some ((), input)

/-! ## Runs -/

@[simp]
theorem run_pure (a : α) (input : List σ) :
    (pure a : Scanner σ α) input = some (a, input) :=
  rfl

theorem run_bind (p : Scanner σ α) (f : α → Scanner σ β) (input : List σ) :
    (p >>= f) input = (p input).bind fun x => f x.1 x.2 :=
  rfl

theorem bind_taken
    {p : Scanner σ α} {input rest : List σ} {a : α}
    (hp : p input = some (a, rest)) (f : α → Scanner σ β) :
    (p >>= f) input = f a rest := by
  rw [run_bind, hp]
  rfl

theorem bind_failed
    {p : Scanner σ α} {input : List σ}
    (hp : p input = none) (f : α → Scanner σ β) :
    (p >>= f) input = none := by
  rw [run_bind, hp]
  rfl

theorem bind_eq_some
    {p : Scanner σ α} {f : α → Scanner σ β} {input : List σ} {x : β × List σ} :
    (p >>= f) input = some x ↔
      ∃ a rest, p input = some (a, rest) ∧ f a rest = some x := by
  rw [run_bind]
  cases p input with
  | none => simp
  | some y => exact ⟨fun h => ⟨y.1, y.2, rfl, h⟩, by rintro ⟨a, rest, ⟨rfl⟩, h⟩; exact h⟩

theorem run_orElse (p q : Scanner σ α) (input : List σ) :
    (p <|> q) input = (p input).or (q input) := by
  change (p input <|> q input) = _
  cases p input <;> rfl

theorem run_map (f : α → β) (p : Scanner σ α) (input : List σ) :
    (f <$> p) input = (p input).map fun x => (f x.1, x.2) := by
  change (p input >>= fun x => some (f x.1, x.2)) = _
  cases p input <;> rfl

theorem orElse_taken
    {p : Scanner σ α} {input : List σ} {x : α × List σ}
    (hp : p input = some x) (q : Scanner σ α) :
    (p <|> q) input = some x := by
  rw [run_orElse, hp]
  rfl

theorem orElse_failed
    {p : Scanner σ α} {input : List σ} (hp : p input = none) (q : Scanner σ α) :
    (p <|> q) input = q input := by
  rw [run_orElse, hp]
  rfl

theorem orElse_eq_some
    {p q : Scanner σ α} {input : List σ} {x : α × List σ} :
    (p <|> q) input = some x ↔
      p input = some x ∨ p input = none ∧ q input = some x := by
  rw [run_orElse]
  cases p input <;> simp

@[simp]
theorem satisfy_nil (kind : σ → Bool) : satisfy kind [] = none :=
  rfl

theorem satisfy_cons (kind : σ → Bool) (c : σ) (input : List σ) :
    satisfy kind (c :: input) = if kind c then some (c, input) else none :=
  rfl

theorem satisfy_eq_some
    {kind : σ → Bool} {input rest : List σ} {c : σ} :
    satisfy kind input = some (c, rest) ↔ input = c :: rest ∧ kind c = true := by
  cases input with
  | nil => simp
  | cons d input =>
      rw [satisfy_cons]
      split <;> aesop

/-! ## How much is taken -/

/-- The rest is never longer than the input. -/
def Shrinks (p : Scanner σ α) : Prop :=
  ∀ input a rest, p input = some (a, rest) → rest.length ≤ input.length

/-- Success takes at least one symbol. -/
def Consumes (p : Scanner σ α) : Prop :=
  ∀ input a rest, p input = some (a, rest) → rest.length < input.length

theorem Consumes.shrinks {p : Scanner σ α} (hp : Consumes p) : Shrinks p :=
  fun input a rest h => Nat.le_of_lt (hp input a rest h)

theorem Shrinks.pure (a : α) : Shrinks (Pure.pure a : Scanner σ α) := by
  intro input b rest h
  cases h
  exact le_rfl

theorem Shrinks.bind
    {p : Scanner σ α} {f : α → Scanner σ β} (hp : Shrinks p) (hf : ∀ a, Shrinks (f a)) :
    Shrinks (p >>= f) := by
  intro input b rest h
  obtain ⟨a, middle, h₁, h₂⟩ := bind_eq_some.1 h
  exact (hf a middle b rest h₂).trans (hp input a middle h₁)

theorem Shrinks.map {p : Scanner σ α} (hp : Shrinks p) (f : α → β) : Shrinks (f <$> p) := by
  intro input b rest h
  rw [run_map, Option.map_eq_some_iff] at h
  obtain ⟨x, hx, ⟨⟩⟩ := h
  exact hp input x.1 x.2 hx

theorem Consumes.map {p : Scanner σ α} (hp : Consumes p) (f : α → β) : Consumes (f <$> p) := by
  intro input b rest h
  rw [run_map, Option.map_eq_some_iff] at h
  obtain ⟨x, hx, ⟨⟩⟩ := h
  exact hp input x.1 x.2 hx

theorem Consumes.bind
    {p : Scanner σ α} {f : α → Scanner σ β} (hp : Consumes p) (hf : ∀ a, Shrinks (f a)) :
    Consumes (p >>= f) := by
  intro input b rest h
  obtain ⟨a, middle, h₁, h₂⟩ := bind_eq_some.1 h
  exact (hf a middle b rest h₂).trans_lt (hp input a middle h₁)

theorem Consumes.after
    {p : Scanner σ α} {f : α → Scanner σ β} (hp : Shrinks p) (hf : ∀ a, Consumes (f a)) :
    Consumes (p >>= f) := by
  intro input b rest h
  obtain ⟨a, middle, h₁, h₂⟩ := bind_eq_some.1 h
  exact (hf a middle b rest h₂).trans_le (hp input a middle h₁)

theorem Shrinks.orElse
    {p q : Scanner σ α} (hp : Shrinks p) (hq : Shrinks q) : Shrinks (p <|> q) := by
  intro input a rest h
  cases orElse_eq_some.1 h with
  | inl h => exact hp input a rest h
  | inr h => exact hq input a rest h.2

theorem Consumes.orElse
    {p q : Scanner σ α} (hp : Consumes p) (hq : Consumes q) : Consumes (p <|> q) := by
  intro input a rest h
  cases orElse_eq_some.1 h with
  | inl h => exact hp input a rest h
  | inr h => exact hq input a rest h.2

theorem consumes_satisfy (kind : σ → Bool) : Consumes (satisfy kind) := by
  intro input c rest h
  rw [(satisfy_eq_some.1 h).1]
  exact Nat.lt_succ_self _

theorem shrinks_skipWhile (kind : σ → Bool) : Shrinks (skipWhile kind) := by
  intro input u rest h
  cases h
  exact (List.dropWhile_sublist kind).length_le

theorem shrinks_notAhead (p : Scanner σ β) : Shrinks (notAhead p) := by
  intro input u rest h
  unfold notAhead at h
  split at h
  · cases h
  · cases h
    exact le_rfl

/-! ## The Kleene star -/

theorem length_manyWithin_le {p : Scanner σ α} (hp : Shrinks p) (fuel : ℕ) (input : List σ) :
    (manyWithin p fuel input).2.length ≤ input.length := by
  induction fuel generalizing input with
  | zero => exact le_rfl
  | succ fuel ih =>
      unfold manyWithin
      cases h : p input with
      | none => exact le_rfl
      | some x => exact (ih x.2).trans (hp input x.1 x.2 h)

theorem Shrinks.many {p : Scanner σ α} (hp : Shrinks p) : Shrinks (many p) := by
  intro input as rest h
  have hrest : (manyWithin p input.length input).2 = rest :=
    congrArg Prod.snd (Option.some.inj h)
  rw [← hrest]
  exact length_manyWithin_le hp _ _

theorem Consumes.nil {p : Scanner σ α} (hp : Consumes p) : p [] = none := by
  cases h : p [] with
  | none => rfl
  | some x => exact absurd (hp [] x.1 x.2 h) (by simp)

theorem manyWithin_nil {p : Scanner σ α} (hp : Consumes p) (fuel : ℕ) :
    manyWithin p fuel [] = ([], []) := by
  cases fuel <;> simp [manyWithin, hp.nil]

/-- Fuel for each symbol of the input is enough. -/
theorem manyWithin_eq
    {p : Scanner σ α} (hp : Consumes p) {fuel fuel' : ℕ} {input : List σ}
    (h : input.length ≤ fuel) (h' : input.length ≤ fuel') :
    manyWithin p fuel input = manyWithin p fuel' input := by
  induction fuel generalizing fuel' input with
  | zero =>
      have hinput : input = [] := List.eq_nil_of_length_eq_zero (by omega)
      rw [hinput, manyWithin_nil hp, manyWithin_nil hp]
  | succ fuel ih =>
      cases fuel' with
      | zero =>
          have hinput : input = [] := List.eq_nil_of_length_eq_zero (by omega)
          rw [hinput, manyWithin_nil hp, manyWithin_nil hp]
      | succ fuel' =>
          unfold manyWithin
          cases hx : p input with
          | none => rfl
          | some x =>
              have hlt := hp input x.1 x.2 hx
              simp only [ih (show x.2.length ≤ fuel by omega) (show x.2.length ≤ fuel' by omega)]

theorem many_stop {p : Scanner σ α} {input : List σ} (h : p input = none) :
    many p input = some ([], input) := by
  unfold many
  cases input <;> simp [manyWithin, h]

theorem many_next
    {p : Scanner σ α} (hp : Consumes p) {input middle rest : List σ} {a : α} {as : List α}
    (h : p input = some (a, middle)) (hrest : many p middle = some (as, rest)) :
    many p input = some (a :: as, rest) := by
  have hlt := hp input a middle h
  cases input with
  | nil => simp at hlt
  | cons c input =>
      have hle : middle.length ≤ input.length := by
        simpa [Nat.lt_succ_iff] using hlt
      have hmiddle : manyWithin p input.length middle = (as, rest) := by
        rw [manyWithin_eq hp hle le_rfl]
        exact Option.some.inj hrest
      change some (manyWithin p (input.length + 1) (c :: input)) = _
      simp [manyWithin, h, hmiddle]

theorem many_split
    {p : Scanner σ α} (hp : Consumes p) {input middle rest : List σ} {a : α} {as : List α}
    (h : p input = some (a, middle)) (hmany : many p input = some (as, rest)) :
    ∃ tail, as = a :: tail ∧ many p middle = some (tail, rest) := by
  have hmiddle : many p middle = some ((manyWithin p middle.length middle).1,
      (manyWithin p middle.length middle).2) := rfl
  cases (many_next hp h hmiddle).symm.trans hmany
  exact ⟨_, rfl, hmiddle⟩

theorem many_stops
    {p : Scanner σ α} (hp : Consumes p) {input rest : List σ} {as : List α}
    (h : many p input = some (as, rest)) : p rest = none := by
  have hwithin : ∀ fuel input, input.length ≤ fuel → p (manyWithin p fuel input).2 = none := by
    intro fuel
    induction fuel with
    | zero =>
        intro input hinput
        have hnil : input = [] := List.eq_nil_of_length_eq_zero (by omega)
        rw [hnil]
        exact hp.nil
    | succ fuel ih =>
        intro input hinput
        unfold manyWithin
        cases hx : p input with
        | none => exact hx
        | some x =>
            have hlt := hp input x.1 x.2 hx
            exact ih x.2 (by omega)
  have hrest : (manyWithin p input.length input).2 = rest :=
    congrArg Prod.snd (Option.some.inj h)
  rw [← hrest]
  exact hwithin input.length input le_rfl

/-- Runs of a star inside a star: the inner one takes everything at once. -/
theorem many_many1
    {p : Scanner σ α} (hp : Consumes p) {input rest : List σ} {as : List α}
    (h : many p input = some (as, rest)) :
    many (many1 p) input = some (if as = [] then [] else [as], rest) := by
  have hconsumes : Consumes (many1 p) :=
    hp.bind fun _ => hp.shrinks.many.bind fun _ => Shrinks.pure _
  have hrest : many1 p rest = none :=
    bind_failed (many_stops hp h) _
  cases hx : p input with
  | none =>
      cases (many_stop hx).symm.trans h
      exact many_stop (bind_failed hx _)
  | some x =>
      obtain ⟨tail, rfl, htail⟩ := many_split hp hx h
      have hmany1 : many1 p input = some (x.1 :: tail, rest) := by
        unfold many1
        rw [bind_taken hx, bind_taken htail]
        rfl
      exact many_next hconsumes hmany1 (many_stop hrest)

theorem many_map (f : α → β) (p : Scanner σ α) (input : List σ) :
    many (f <$> p) input = (many p input).map fun x => (x.1.map f, x.2) := by
  have hwithin : ∀ fuel input, manyWithin (f <$> p) fuel input =
      ((manyWithin p fuel input).1.map f, (manyWithin p fuel input).2) := by
    intro fuel
    induction fuel with
    | zero => exact fun _ => rfl
    | succ fuel ih =>
        intro input
        unfold manyWithin
        rw [run_map]
        cases p input with
        | none => rfl
        | some x => simp [ih]
  exact congrArg some (hwithin input.length input)

theorem many_satisfy (kind : σ → Bool) (input : List σ) :
    many (satisfy kind) input = some (input.takeWhile kind, input.dropWhile kind) := by
  induction input with
  | nil => rfl
  | cons c input ih =>
      cases hc : kind c with
      | false =>
          rw [many_stop (by rw [satisfy_cons, hc]; rfl)]
          simp [hc]
      | true =>
          rw [many_next (consumes_satisfy kind) (by rw [satisfy_cons, hc]; rfl) ih]
          simp [hc]

/-! ## Runs of one kind -/

/-- The rest does not go on with a symbol of the kind. -/
def Ends (kind : σ → Bool) (rest : List σ) : Prop :=
  ∀ c ∈ rest.head?, kind c = false

theorem ends_nil (kind : σ → Bool) : Ends kind [] := by
  intro c hc
  cases hc

theorem ends_cons {kind : σ → Bool} {c : σ} {rest : List σ} :
    Ends kind (c :: rest) ↔ kind c = false := by
  simp [Ends]

theorem many_of_ends
    {kind : σ → Bool} {taken rest : List σ}
    (htaken : ∀ c ∈ taken, kind c = true) (hrest : Ends kind rest) :
    many (satisfy kind) (taken ++ rest) = some (taken, rest) := by
  have hstop : rest.takeWhile kind = [] ∧ rest.dropWhile kind = rest := by
    cases rest with
    | nil => exact ⟨rfl, rfl⟩
    | cons c rest => simp [ends_cons.1 hrest]
  rw [many_satisfy, List.takeWhile_append_of_pos htaken, List.dropWhile_append_of_pos htaken,
    hstop.1, hstop.2, List.append_nil]

theorem many1_of_ends
    {kind : σ → Bool} {taken rest : List σ} (hne : taken ≠ [])
    (htaken : ∀ c ∈ taken, kind c = true) (hrest : Ends kind rest) :
    many1 (satisfy kind) (taken ++ rest) = some (taken, rest) := by
  cases taken with
  | nil => exact absurd rfl hne
  | cons c taken =>
      have hc : satisfy kind (c :: taken ++ rest) = some (c, taken ++ rest) := by
        rw [List.cons_append, satisfy_cons, if_pos (htaken c List.mem_cons_self)]
      unfold many1
      rw [bind_taken hc, bind_taken (many_of_ends
        (fun d hd => htaken d (List.mem_cons_of_mem c hd)) hrest)]
      rfl

theorem many_satisfy_eq_some
    {kind : σ → Bool} {input taken rest : List σ}
    (h : many (satisfy kind) input = some (taken, rest)) :
    taken ++ rest = input ∧ (∀ c ∈ taken, kind c = true) ∧ Ends kind rest := by
  rw [many_satisfy] at h
  cases h
  refine ⟨List.takeWhile_append_dropWhile, List.all_eq_true.1 List.all_takeWhile, ?_⟩
  intro c hc
  have hhead := List.head?_dropWhile_not kind input
  rw [Option.mem_def.1 hc] at hhead
  simpa using hhead

theorem many1_satisfy_eq_some
    {kind : σ → Bool} {input taken rest : List σ}
    (h : many1 (satisfy kind) input = some (taken, rest)) :
    taken ++ rest = input ∧ taken ≠ [] ∧ (∀ c ∈ taken, kind c = true) ∧ Ends kind rest := by
  obtain ⟨c, middle, hc, h⟩ := bind_eq_some.1 h
  obtain ⟨tail, rest', htail, h⟩ := bind_eq_some.1 h
  cases h
  obtain ⟨rfl, hkind⟩ := satisfy_eq_some.1 hc
  obtain ⟨rfl, htaken, hrest⟩ := many_satisfy_eq_some htail
  refine ⟨rfl, List.cons_ne_nil c tail, ?_, hrest⟩
  intro d hd
  cases List.mem_cons.1 hd with
  | inl hd => rw [hd]; exact hkind
  | inr hd => exact htaken d hd

/-! ## Parsers that agree on short inputs -/

/-- No difference on inputs of at most `n` symbols. -/
def AgreeUpTo (n : ℕ) (p q : Scanner σ α) : Prop :=
  ∀ input, input.length ≤ n → p input = q input

theorem AgreeUpTo.refl (n : ℕ) (p : Scanner σ α) : AgreeUpTo n p p :=
  fun _ _ => rfl

theorem AgreeUpTo.mono
    {m n : ℕ} {p q : Scanner σ α} (h : AgreeUpTo n p q) (hle : m ≤ n) : AgreeUpTo m p q :=
  fun input hinput => h input (hinput.trans hle)

theorem AgreeUpTo.bind
    {n : ℕ} {p q : Scanner σ α} {f g : α → Scanner σ β}
    (hpq : AgreeUpTo n p q) (hp : Shrinks p) (hfg : ∀ a, AgreeUpTo n (f a) (g a)) :
    AgreeUpTo n (p >>= f) (q >>= g) := by
  intro input hinput
  rw [run_bind, run_bind, ← hpq input hinput]
  cases h : p input with
  | none => rfl
  | some x => exact hfg x.1 x.2 ((hp input x.1 x.2 h).trans hinput)

/-- After a parser that takes a symbol the rest is shorter. -/
theorem AgreeUpTo.after
    {n : ℕ} {p : Scanner σ α} {f g : α → Scanner σ β}
    (hp : Consumes p) (hfg : ∀ a, AgreeUpTo n (f a) (g a)) :
    AgreeUpTo (n + 1) (p >>= f) (p >>= g) := by
  intro input hinput
  rw [run_bind, run_bind]
  cases h : p input with
  | none => rfl
  | some x =>
      have hlt := hp input x.1 x.2 h
      exact hfg x.1 x.2 (by omega)

theorem AgreeUpTo.map
    {n : ℕ} {p q : Scanner σ α} (hpq : AgreeUpTo n p q) (f : α → β) :
    AgreeUpTo n (f <$> p) (f <$> q) := by
  intro input hinput
  rw [run_map, run_map, hpq input hinput]

theorem AgreeUpTo.orElse
    {n : ℕ} {p q p' q' : Scanner σ α} (hp : AgreeUpTo n p p') (hq : AgreeUpTo n q q') :
    AgreeUpTo n (p <|> q) (p' <|> q') := by
  intro input hinput
  rw [run_orElse, run_orElse, hp input hinput, hq input hinput]

theorem AgreeUpTo.many
    {n : ℕ} {p q : Scanner σ α} (hpq : AgreeUpTo n p q) (hp : Shrinks p) :
    AgreeUpTo n (many p) (many q) := by
  have hwithin : ∀ fuel input, input.length ≤ n →
      manyWithin p fuel input = manyWithin q fuel input := by
    intro fuel
    induction fuel with
    | zero => exact fun _ _ => rfl
    | succ fuel ih =>
        intro input hinput
        unfold manyWithin
        rw [← hpq input hinput]
        cases h : p input with
        | none => rfl
        | some x => simp only [ih x.2 ((hp input x.1 x.2 h).trans hinput)]
  intro input hinput
  exact congrArg some (hwithin input.length input hinput)

/-! ## Words that a parser takes -/

/-- What `p` takes is a word of `l`. -/
def Sound (p : Scanner σ α) (l : Language σ) : Prop :=
  ∀ input a rest, p input = some (a, rest) → ∃ word ∈ l, word ++ rest = input

theorem Sound.mono
    {p : Scanner σ α} {l m : Language σ} (hp : Sound p l) (h : ∀ word ∈ l, word ∈ m) :
    Sound p m := by
  intro input a rest hrun
  obtain ⟨word, hword, happend⟩ := hp input a rest hrun
  exact ⟨word, h word hword, happend⟩

theorem Sound.pure (a : α) : Sound (Pure.pure a : Scanner σ α) 1 := by
  intro input b rest h
  cases h
  exact ⟨[], Language.nil_mem_one, rfl⟩

theorem Sound.bind
    {p : Scanner σ α} {f : α → Scanner σ β} {l m : Language σ}
    (hp : Sound p l) (hf : ∀ a, Sound (f a) m) : Sound (p >>= f) (l * m) := by
  intro input b rest h
  obtain ⟨a, middle, h₁, h₂⟩ := bind_eq_some.1 h
  obtain ⟨u, hu, rfl⟩ := hp input a middle h₁
  obtain ⟨v, hv, rfl⟩ := hf a middle b rest h₂
  exact ⟨u ++ v, Language.append_mem_mul hu hv, List.append_assoc u v rest⟩

theorem Sound.map
    {p : Scanner σ α} {l : Language σ} (hp : Sound p l) (f : α → β) : Sound (f <$> p) l := by
  intro input b rest h
  rw [run_map, Option.map_eq_some_iff] at h
  obtain ⟨x, hx, ⟨⟩⟩ := h
  exact hp input x.1 x.2 hx

theorem Sound.returns
    {p : Scanner σ α} {l : Language σ} (hp : Sound p l) (f : α → β) :
    Sound (p >>= fun a => Pure.pure (f a)) l := by
  rw [bind_pure_comp]
  exact hp.map f

theorem Sound.orElse
    {p q : Scanner σ α} {l m : Language σ} (hp : Sound p l) (hq : Sound q m) :
    Sound (p <|> q) (l + m) := by
  intro input a rest h
  cases orElse_eq_some.1 h with
  | inl h =>
      obtain ⟨word, hword, happend⟩ := hp input a rest h
      exact ⟨word, Or.inl hword, happend⟩
  | inr h =>
      obtain ⟨word, hword, happend⟩ := hq input a rest h.2
      exact ⟨word, Or.inr hword, happend⟩

theorem Sound.many {p : Scanner σ α} {l : Language σ} (hp : Sound p l) :
    Sound (many p) l∗ := by
  have hwithin : ∀ fuel input,
      ∃ word ∈ l∗, word ++ (manyWithin p fuel input).2 = input := by
    intro fuel
    induction fuel with
    | zero => exact fun input => ⟨[], Language.nil_mem_kstar l, rfl⟩
    | succ fuel ih =>
        intro input
        unfold manyWithin
        cases h : p input with
        | none => exact ⟨[], Language.nil_mem_kstar l, rfl⟩
        | some x =>
            obtain ⟨u, hu, hux⟩ := hp input x.1 x.2 h
            obtain ⟨v, hv, hvx⟩ := ih x.2
            have hmem : u ++ v ∈ l∗ := by
              rw [← Language.one_add_self_mul_kstar_eq_kstar l]
              exact Or.inr (Language.append_mem_mul hu hv)
            exact ⟨u ++ v, hmem, by rw [List.append_assoc, hvx, hux]⟩
  intro input as rest h
  obtain ⟨word, hword, happend⟩ := hwithin input.length input
  have hrest : (manyWithin p input.length input).2 = rest :=
    congrArg Prod.snd (Option.some.inj h)
  exact ⟨word, hword, by rw [← hrest]; exact happend⟩

theorem Sound.shrinks {p : Scanner σ α} {l : Language σ} (hp : Sound p l) : Shrinks p := by
  intro input a rest h
  obtain ⟨word, -, rfl⟩ := hp input a rest h
  simp

theorem sound_satisfy (kind : σ → Bool) :
    Sound (satisfy kind) {word | ∃ c, kind c = true ∧ word = [c]} := by
  intro input c rest h
  obtain ⟨rfl, hc⟩ := satisfy_eq_some.1 h
  exact ⟨[c], ⟨c, hc, rfl⟩, rfl⟩

theorem sound_skipWhile (kind : σ → Bool) :
    Sound (skipWhile kind) {word | ∀ c ∈ word, kind c = true} := by
  intro input u rest h
  cases h
  exact ⟨input.takeWhile kind, List.all_eq_true.1 List.all_takeWhile,
    List.takeWhile_append_dropWhile⟩

theorem sound_notAhead (p : Scanner σ β) : Sound (notAhead p) 1 := by
  intro input u rest h
  unfold notAhead at h
  split at h
  · cases h
  · cases h
    exact ⟨[], Language.nil_mem_one, rfl⟩

/-! ## Results -/

/-- Whatever `p` returns has the property. -/
def Yields (p : Scanner σ α) (property : α → Prop) : Prop :=
  ∀ input a rest, p input = some (a, rest) → property a

theorem Yields.bind
    {p : Scanner σ α} {f : α → Scanner σ β} {first : α → Prop} {property : β → Prop}
    (hp : Yields p first) (hf : ∀ a, first a → Yields (f a) property) :
    Yields (p >>= f) property := by
  intro input b rest h
  obtain ⟨a, middle, h₁, h₂⟩ := bind_eq_some.1 h
  exact hf a (hp input a middle h₁) middle b rest h₂

theorem Yields.pure {a : α} {property : α → Prop} (ha : property a) :
    Yields (Pure.pure a : Scanner σ α) property := by
  intro input b rest h
  cases h
  exact ha

theorem Yields.map
    {p : Scanner σ α} {f : α → β} {property : β → Prop} (hp : Yields p fun a => property (f a)) :
    Yields (f <$> p) property := by
  intro input b rest h
  rw [run_map, Option.map_eq_some_iff] at h
  obtain ⟨x, hx, ⟨⟩⟩ := h
  exact hp input x.1 x.2 hx

theorem Yields.orElse
    {p q : Scanner σ α} {property : α → Prop} (hp : Yields p property) (hq : Yields q property) :
    Yields (p <|> q) property := by
  intro input a rest h
  cases orElse_eq_some.1 h with
  | inl h => exact hp input a rest h
  | inr h => exact hq input a rest h.2

theorem yields_any (p : Scanner σ α) : Yields p fun _ => True :=
  fun _ _ _ _ => trivial

theorem Yields.many {p : Scanner σ α} {property : α → Prop} (hp : Yields p property) :
    Yields (many p) fun as => ∀ a ∈ as, property a := by
  have hwithin : ∀ fuel input, ∀ a ∈ (manyWithin p fuel input).1, property a := by
    intro fuel
    induction fuel with
    | zero => simp [manyWithin]
    | succ fuel ih =>
        intro input
        unfold manyWithin
        cases h : p input with
        | none => simp
        | some x =>
            intro a ha
            rcases List.mem_cons.1 ha with rfl | ha
            · exact hp input x.1 x.2 h
            · exact ih x.2 a ha
  intro input as rest h
  have has : (manyWithin p input.length input).1 = as := congrArg Prod.fst (Option.some.inj h)
  rw [← has]
  exact hwithin input.length input

/-- The items of an optional list. -/
theorem Yields.list
    {p : Scanner σ α} {property : α → Prop} (hp : Yields p property) (separator : Scanner σ β) :
    Yields (orDefault (sepBy1 p separator) []) fun as => ∀ a ∈ as, property a := by
  have hmore := Yields.many ((yields_any separator).bind fun _ _ => hp)
  refine Yields.orElse (hp.bind fun a ha => hmore.bind fun as has => Yields.pure ?_)
    (Yields.pure (by simp))
  exact List.forall_mem_cons.2 ⟨ha, has⟩

/-! ## Words that a parser is sure to take -/

/-- `p` takes the word and returns `a`, whatever admissible rest follows. -/
def Takes (p : Scanner σ α) (word : List σ) (a : α) (follow : List σ → Prop) : Prop :=
  ∀ rest, follow rest → p (word ++ rest) = some (a, rest)

theorem Takes.pure (a : α) (follow : List σ → Prop) :
    Takes (Pure.pure a : Scanner σ α) [] a follow :=
  fun _ _ => rfl

theorem Takes.bind
    {p : Scanner σ α} {f : α → Scanner σ β} {u v : List σ} {a : α} {b : β}
    {follow follow' : List σ → Prop}
    (hp : Takes p u a follow') (hf : Takes (f a) v b follow)
    (hfollow : ∀ rest, follow rest → follow' (v ++ rest)) :
    Takes (p >>= f) (u ++ v) b follow := by
  intro rest hrest
  rw [List.append_assoc, bind_taken (hp (v ++ rest) (hfollow rest hrest))]
  exact hf rest hrest

theorem Takes.map
    {p : Scanner σ α} {word : List σ} {a : α} {follow : List σ → Prop}
    (hp : Takes p word a follow) (f : α → β) : Takes (f <$> p) word (f a) follow := by
  intro rest hrest
  rw [run_map, hp rest hrest]
  rfl

theorem Takes.orElse
    {p : Scanner σ α} {word : List σ} {a : α} {follow : List σ → Prop}
    (hp : Takes p word a follow) (q : Scanner σ α) : Takes (p <|> q) word a follow :=
  fun rest hrest => orElse_taken (hp rest hrest) q

/-- The second alternative is reached where the first one fails. -/
theorem Takes.otherwise
    {p q : Scanner σ α} {word : List σ} {a : α} {follow : List σ → Prop}
    (hq : Takes q word a follow) (hp : ∀ rest, follow rest → p (word ++ rest) = none) :
    Takes (p <|> q) word a follow := by
  intro rest hrest
  rw [orElse_failed (hp rest hrest)]
  exact hq rest hrest

theorem Takes.many
    {p : Scanner σ α} {words : List (List σ)} {as : List α} {follow follow' : List σ → Prop}
    (hp : List.Forall₂ (fun word a => Takes p word a follow') words as)
    (hconsumes : Consumes p)
    (hnext : ∀ word ∈ words, ∀ rest, follow' (word ++ rest))
    (hlast : ∀ rest, follow rest → follow' rest)
    (hstop : ∀ rest, follow rest → p rest = none) :
    Takes (many p) words.flatten as follow := by
  intro rest hrest
  induction hp with
  | nil => exact many_stop (hstop rest hrest)
  | @cons word a words as hword hwords ih =>
      have hmore := ih fun w hw => hnext w (List.mem_cons_of_mem word hw)
      have hfollow : follow' (words.flatten ++ rest) := by
        cases words with
        | nil => exact hlast rest hrest
        | cons v words =>
            rw [List.flatten_cons, List.append_assoc]
            exact hnext v (List.mem_cons_of_mem word List.mem_cons_self) _
      rw [List.flatten_cons, List.append_assoc]
      exact many_next hconsumes (hword _ hfollow) hmore

/-- `p` takes every word of `l` that an admissible rest follows. -/
def Complete (p : Scanner σ α) (l : Language σ) (follow : List σ → Prop) : Prop :=
  ∀ word ∈ l, ∃ a, Takes p word a follow

theorem Complete.pure (a : α) (follow : List σ → Prop) :
    Complete (Pure.pure a : Scanner σ α) 1 follow := by
  intro word hword
  rw [(Language.mem_one word).1 hword]
  exact ⟨a, Takes.pure a follow⟩

theorem Complete.bind
    {p : Scanner σ α} {f : α → Scanner σ β} {l m : Language σ} {follow follow' : List σ → Prop}
    (hp : Complete p l follow') (hf : ∀ a, Complete (f a) m follow)
    (hfollow : ∀ word ∈ m, ∀ rest, follow rest → follow' (word ++ rest)) :
    Complete (p >>= f) (l * m) follow := by
  rintro _ ⟨u, hu, v, hv, rfl⟩
  obtain ⟨a, ha⟩ := hp u hu
  obtain ⟨b, hb⟩ := hf a v hv
  exact ⟨b, ha.bind hb (hfollow v hv)⟩

theorem Complete.map
    {p : Scanner σ α} {l : Language σ} {follow : List σ → Prop}
    (hp : Complete p l follow) (f : α → β) : Complete (f <$> p) l follow := by
  intro word hword
  obtain ⟨a, ha⟩ := hp word hword
  exact ⟨f a, ha.map f⟩

theorem Complete.returns
    {p : Scanner σ α} {l : Language σ} {follow : List σ → Prop}
    (hp : Complete p l follow) (f : α → β) :
    Complete (p >>= fun a => Pure.pure (f a)) l follow := by
  rw [bind_pure_comp]
  exact hp.map f

theorem Complete.orElse
    {p q : Scanner σ α} {l m : Language σ} {follow : List σ → Prop}
    (hp : Complete p l follow) (hq : Complete q m follow)
    (hfails : ∀ word ∈ m, ∀ rest, follow rest → p (word ++ rest) = none) :
    Complete (p <|> q) (l + m) follow := by
  intro word hword
  cases (Language.mem_add l m word).1 hword with
  | inl hl =>
      obtain ⟨a, ha⟩ := hp word hl
      exact ⟨a, ha.orElse q⟩
  | inr hm =>
      obtain ⟨a, ha⟩ := hq word hm
      exact ⟨a, ha.otherwise (hfails word hm)⟩

theorem Complete.many
    {p : Scanner σ α} {l : Language σ} {follow follow' : List σ → Prop}
    (hp : Complete p l follow') (hconsumes : Consumes p)
    (hnext : ∀ word ∈ l, ∀ rest, follow' (word ++ rest))
    (hlast : ∀ rest, follow rest → follow' rest)
    (hstop : ∀ rest, follow rest → p rest = none) :
    Complete (many p) l∗ follow := by
  intro word hword
  obtain ⟨words, rfl, hwords⟩ := Language.mem_kstar.1 hword
  have hvalues : ∃ as, List.Forall₂ (fun word a => Takes p word a follow') words as := by
    clear hword
    induction words with
    | nil => exact ⟨[], List.Forall₂.nil⟩
    | cons u words ih =>
        obtain ⟨a, ha⟩ := hp u (hwords u List.mem_cons_self)
        obtain ⟨as, has⟩ := ih fun y hy => hwords y (List.mem_cons_of_mem u hy)
        exact ⟨a :: as, List.Forall₂.cons ha has⟩
  obtain ⟨as, has⟩ := hvalues
  exact ⟨as, Takes.many has hconsumes (fun w hw => hnext w (hwords w hw)) hlast hstop⟩

end

end Scanner

end ArtdaqDatabase
