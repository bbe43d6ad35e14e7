import ArtdaqDatabase.JsonText

/-!
# The numbers of JSON text

A numeral has a sign, digits on either side of a point and an exponent, each of
them optional.  The reader takes an integer wherever the digits are in range and
no point follows them, so an exponent right behind such digits is left in the input.
-/

namespace ArtdaqDatabase

open Scanner

/-! ## The parts of a numeral -/

def signs : List (List Char) :=
  [[], ['+'], ['-']]

/-- Digits only. -/
def AllDigits (digits : List Char) : Prop :=
  ∀ c ∈ digits, c.isDigit = true

instance (digits : List Char) : Decidable (AllDigits digits) :=
  inferInstanceAs (Decidable (∀ c ∈ digits, c.isDigit = true))

def isExponentMark (c : Char) : Bool :=
  c = 'e' ∨ c = 'E'

/-- An exponent has its mark and at least one digit. -/
def IsExponent (e : Char × List Char × List Char) : Prop :=
  isExponentMark e.1 = true ∧ e.2.1 ∈ signs ∧ e.2.2 ≠ [] ∧ AllDigits e.2.2

/-- The parts are those of a number, and one digit at least is there. -/
structure Numeral.WellFormed (n : Numeral) : Prop where
  sign : n.sign ∈ signs
  whole : AllDigits n.whole
  fraction : ∀ digits, n.fraction = some digits → AllDigits digits
  digit : n.whole ≠ [] ∨ n.fraction.getD [] ≠ []
  exponent : ∀ e, n.exponent = some e → IsExponent e

/-- The digits are those of an integer in range. -/
def Numeral.Plain (n : Numeral) : Prop :=
  n.fraction = none ∧ InRange (signedValue n.sign n.whole)

instance (n : Numeral) : Decidable n.Plain :=
  inferInstanceAs (Decidable (_ ∧ _))

/-! ## The parts one by one -/

def isSign (c : Char) : Bool :=
  c = '+' ∨ c = '-'

theorem not_isSign_of_isDigit {c : Char} (hc : c.isDigit = true) : isSign c = false := by
  unfold isSign
  rw [decide_eq_false_iff_not]
  rintro (rfl | rfl) <;> exact absurd hc (by decide)

theorem takes_sign
    {s rest : List Char} (hs : s ∈ signs) (hrest : s = [] → Ends isSign rest) :
    sign (s ++ rest) = some (s, rest) := by
  simp only [signs, List.mem_cons, List.not_mem_nil, or_false] at hs
  unfold sign
  rcases hs with rfl | rfl | rfl
  · cases rest with
    | nil => rfl
    | cons c rest =>
        have hc : isSign c = false := ends_cons.1 (hrest rfl)
        rw [orElse_failed]
        · rfl
        · rw [run_map, List.nil_append, satisfy_cons]
          simpa [isSign] using hc
  · rfl
  · rfl

theorem sign_eq_some {input s rest : List Char} (h : sign input = some (s, rest)) :
    s ++ rest = input ∧ s ∈ signs := by
  cases orElse_eq_some.1 h with
  | inl h =>
      rw [run_map, Option.map_eq_some_iff] at h
      obtain ⟨⟨c, rest'⟩, hc, ⟨⟩⟩ := h
      obtain ⟨rfl, hkind⟩ := satisfy_eq_some.1 hc
      have hsign : c = '+' ∨ c = '-' := of_decide_eq_true hkind
      refine ⟨rfl, ?_⟩
      rcases hsign with rfl | rfl <;> simp [signs]
  | inr h =>
      cases h.2
      exact ⟨rfl, by decide⟩

/-- The text of the digits behind the point. -/
def fractionText : Option (List Char) → List Char
  | none => []
  | some digits => '.' :: digits

def exponentText : Option (Char × List Char × List Char) → List Char
  | none => []
  | some (e, sign, digits) => e :: sign ++ digits

theorem Numeral.text_eq (n : Numeral) :
    n.text = n.sign ++ (n.whole ++ (fractionText n.fraction ++ exponentText n.exponent)) := by
  unfold Numeral.text fractionText exponentText
  cases n.fraction <;> cases n.exponent <;> simp

theorem takes_fractionPart
    {fraction : Option (List Char)} {rest : List Char}
    (hdigits : ∀ digits, fraction = some digits → AllDigits digits)
    (hrest : Ends Char.isDigit rest) (hpoint : fraction = none → Ends (fun c => c = '.') rest) :
    fractionPart (fractionText fraction ++ rest) = some (fraction, rest) := by
  unfold fractionPart
  cases fraction with
  | none =>
      rw [orElse_failed]
      · rfl
      · rw [run_map]
        cases rest with
        | nil => rfl
        | cons c rest =>
            have hc : c ≠ '.' := by
              simpa [ends_cons] using hpoint rfl
            rw [bind_failed]
            · rfl
            · simp [fractionText, char, satisfy_cons, hc]
  | some digits =>
      apply orElse_taken
      have hchar : char '.' ('.' :: (digits ++ rest)) = some ('.', digits ++ rest) := rfl
      rw [run_map, fractionText, List.cons_append, bind_taken hchar,
        many_of_ends (hdigits digits rfl) hrest]
      rfl

theorem fractionPart_eq_some
    {input rest : List Char} {fraction : Option (List Char)}
    (h : fractionPart input = some (fraction, rest)) :
    fractionText fraction ++ rest = input ∧
      ∀ digits, fraction = some digits → AllDigits digits := by
  cases orElse_eq_some.1 h with
  | inl h =>
      rw [run_map, Option.map_eq_some_iff] at h
      obtain ⟨⟨digits, rest'⟩, hx, ⟨⟩⟩ := h
      obtain ⟨c, middle, hc, hmany⟩ := bind_eq_some.1 hx
      obtain ⟨rfl, hpoint⟩ := satisfy_eq_some.1 hc
      obtain ⟨rfl, hdigits, -⟩ := many_satisfy_eq_some hmany
      have hpoint : c = '.' := of_decide_eq_true hpoint
      refine ⟨by rw [hpoint]; rfl, ?_⟩
      rintro _ ⟨⟩
      exact hdigits
  | inr h =>
      cases h.2
      refine ⟨rfl, ?_⟩
      rintro _ ⟨⟩

theorem takes_exponentPart
    {exponent : Option (Char × List Char × List Char)} {rest : List Char}
    (hexponent : ∀ e, exponent = some e → IsExponent e)
    (hrest : Ends Char.isDigit rest) (hmark : exponent = none → Ends isExponentMark rest) :
    exponentPart (exponentText exponent ++ rest) = some (exponent, rest) := by
  unfold exponentPart
  cases exponent with
  | none =>
      rw [orElse_failed]
      · rfl
      · rw [run_map, bind_failed]
        · rfl
        · cases rest with
          | nil => rfl
          | cons c rest =>
              have hc : isExponentMark c = false := ends_cons.1 (hmark rfl)
              simpa [exponentText, satisfy_cons, isExponentMark] using hc
  | some e =>
      obtain ⟨e, s, digits⟩ := e
      obtain ⟨hmark, hs, hne, hdigits⟩ := hexponent _ rfl
      have he : satisfy (fun c => decide (c = 'e' ∨ c = 'E')) (e :: (s ++ (digits ++ rest))) =
          some (e, s ++ (digits ++ rest)) := by
        rw [satisfy_cons, if_pos]
        exact hmark
      have hsign : sign (s ++ (digits ++ rest)) = some (s, digits ++ rest) := by
        apply takes_sign hs
        intro _
        cases digits with
        | nil => exact absurd rfl hne
        | cons d digits =>
            have hd : d.isDigit = true := hdigits d List.mem_cons_self
            exact ends_cons.2 (not_isSign_of_isDigit hd)
      apply orElse_taken
      rw [run_map, exponentText, List.append_assoc, List.cons_append, bind_taken he,
        bind_taken hsign, bind_taken (many1_of_ends hne hdigits hrest)]
      rfl

theorem exponentPart_eq_some
    {input rest : List Char} {exponent : Option (Char × List Char × List Char)}
    (h : exponentPart input = some (exponent, rest)) :
    exponentText exponent ++ rest = input ∧ ∀ e, exponent = some e → IsExponent e := by
  cases orElse_eq_some.1 h with
  | inl h =>
      rw [run_map, Option.map_eq_some_iff] at h
      obtain ⟨x, hx, ⟨⟩⟩ := h
      obtain ⟨e, afterMark, he, hx⟩ := bind_eq_some.1 hx
      obtain ⟨s, afterSign, hs, hx⟩ := bind_eq_some.1 hx
      obtain ⟨digits, rest', hdigits, hx⟩ := bind_eq_some.1 hx
      cases hx
      obtain ⟨rfl, hmark⟩ := satisfy_eq_some.1 he
      obtain ⟨rfl, hsigns⟩ := sign_eq_some hs
      obtain ⟨rfl, hne, hall, -⟩ := many1_satisfy_eq_some hdigits
      refine ⟨by simp [exponentText], ?_⟩
      rintro _ ⟨⟩
      exact ⟨hmark, hsigns, hne, hall⟩
  | inr h =>
      cases h.2
      refine ⟨rfl, ?_⟩
      rintro _ ⟨⟩

/-! ## The whole numeral -/

/-- No character of a numeral can follow. -/
structure Delimits (rest : List Char) : Prop where
  sign : Ends isSign rest
  digit : Ends Char.isDigit rest
  point : Ends (fun c => c = '.') rest
  mark : Ends isExponentMark rest
  parenthesis : Ends (fun c => c = '(') rest
  letter : Ends (fun c => c.toLower = 'i') rest

theorem delimits_nil : Delimits [] := by
  constructor <;> exact ends_nil _

theorem ends_exponentText
    {n : Numeral} (hn : n.WellFormed) {rest : List Char} (hrest : Delimits rest) :
    Ends Char.isDigit (exponentText n.exponent ++ rest) ∧
      Ends (fun c => c = '.') (exponentText n.exponent ++ rest) := by
  cases he : n.exponent with
  | none => exact ⟨hrest.digit, hrest.point⟩
  | some e =>
      have hmark : e.1 = 'e' ∨ e.1 = 'E' := of_decide_eq_true (hn.exponent e he).1
      constructor <;> rw [exponentText, List.append_assoc, List.cons_append, ends_cons] <;>
        rcases hmark with h | h <;> rw [h] <;> rfl

theorem ends_fractionText
    {n : Numeral} (hn : n.WellFormed) {rest : List Char} (hrest : Delimits rest) :
    Ends Char.isDigit (fractionText n.fraction ++ (exponentText n.exponent ++ rest)) := by
  cases hf : n.fraction with
  | none => exact (ends_exponentText hn hrest).1
  | some digits => exact ends_cons.2 rfl

/-- A well-formed numeral is read back part by part. -/
theorem takes_numeral {n : Numeral} (hn : n.WellFormed) : Takes numeral n.text n Delimits := by
  intro rest hrest
  have hsign : sign (n.sign ++ (n.whole ++ (fractionText n.fraction ++
      (exponentText n.exponent ++ rest)))) = some (n.sign, n.whole ++
        (fractionText n.fraction ++ (exponentText n.exponent ++ rest))) := by
    apply takes_sign hn.sign
    intro _
    cases hwhole : n.whole with
    | cons d whole =>
        have hd : d.isDigit = true := hn.whole d (by rw [hwhole]; exact List.mem_cons_self)
        exact ends_cons.2 (not_isSign_of_isDigit hd)
    | nil =>
        cases hfraction : n.fraction with
        | some digits => exact ends_cons.2 rfl
        | none =>
            have hdigit := hn.digit
            simp [hwhole, hfraction] at hdigit
  have hwhole := many_of_ends hn.whole (ends_fractionText hn hrest)
  have hfraction := takes_fractionPart hn.fraction (ends_exponentText hn hrest).1
    fun _ => (ends_exponentText hn hrest).2
  have hexponent := takes_exponentPart hn.exponent hrest.digit fun _ => hrest.mark
  have hdigit : ¬ (n.whole = [] ∧ n.fraction.getD [] = []) := by
    rintro ⟨h₁, h₂⟩
    cases hn.digit with
    | inl h => exact h h₁
    | inr h => exact h h₂
  unfold numeral
  rw [n.text_eq]
  simp only [List.append_assoc]
  rw [bind_taken hsign, bind_taken hwhole, bind_taken hfraction, if_neg hdigit,
    bind_taken hexponent]
  rfl

theorem numeral_eq_some
    {input rest : List Char} {n : Numeral} (h : numeral input = some (n, rest)) :
    n.text ++ rest = input ∧ n.WellFormed := by
  obtain ⟨s, afterSign, hs, h⟩ := bind_eq_some.1 h
  obtain ⟨whole, afterWhole, hwhole, h⟩ := bind_eq_some.1 h
  obtain ⟨fraction, afterFraction, hfraction, h⟩ := bind_eq_some.1 h
  split at h
  · cases h
  case isFalse hdigit =>
    obtain ⟨exponent, rest', hexponent, h⟩ := bind_eq_some.1 h
    cases h
    obtain ⟨rfl, hsigns⟩ := sign_eq_some hs
    obtain ⟨rfl, hall, -⟩ := many_satisfy_eq_some hwhole
    obtain ⟨rfl, hfractions⟩ := fractionPart_eq_some hfraction
    obtain ⟨rfl, hexponents⟩ := exponentPart_eq_some hexponent
    refine ⟨by rw [Numeral.text_eq]; simp, hsigns, hall, hfractions, ?_, hexponents⟩
    by_contra hnone
    simp only [not_or, not_not] at hnone
    exact hdigit hnone

/-! ## Integers -/

theorem run_long
    {input s digits rest : List Char} (hinput : input.dropWhile isSpace = s ++ (digits ++ rest))
    (hs : s ∈ signs) (hsign : s = [] → Ends isSign (digits ++ rest))
    (hdigits : AllDigits digits) (hrest : Ends Char.isDigit rest) :
    long input =
      if digits ≠ [] ∧ InRange (signedValue s digits) then
        some (signedValue s digits, rest)
      else none := by
  unfold long
  rw [bind_taken (run_skip input), hinput, bind_taken (takes_sign hs hsign)]
  by_cases hne : digits = []
  · rw [bind_failed, if_neg (by simp [hne])]
    apply bind_failed
    rw [hne]
    cases rest with
    | nil => rfl
    | cons c rest => simp [satisfy_cons, ends_cons.1 hrest]
  · rw [bind_taken (many1_of_ends hne hdigits hrest)]
    by_cases hrange : InRange (signedValue s digits)
    · rw [if_pos hrange, if_pos ⟨hne, hrange⟩]
      rfl
    · rw [if_neg hrange, if_neg (fun h => hrange h.2)]
      rfl

theorem long_eq_some {input rest : List Char} {v : ℤ} (h : long input = some (v, rest)) :
    ∃ s digits, input.dropWhile isSpace = s ++ (digits ++ rest) ∧ s ∈ signs ∧ digits ≠ [] ∧
      AllDigits digits ∧ v = signedValue s digits ∧ InRange v := by
  obtain ⟨u, skipped, hskip, h⟩ := bind_eq_some.1 h
  obtain ⟨s, afterSign, hs, h⟩ := bind_eq_some.1 h
  obtain ⟨digits, rest', hdigits, h⟩ := bind_eq_some.1 h
  split at h
  case isTrue hrange =>
    cases h
    cases hskip
    obtain ⟨happend, hsigns⟩ := sign_eq_some hs
    obtain ⟨rfl, hne, hall, -⟩ := many1_satisfy_eq_some hdigits
    exact ⟨s, digits, happend.symm, hsigns, hne, hall, rfl, hrange⟩
  · cases h

/-- The integer alternative is taken where the digits are in range and no point follows. -/
theorem run_integerRule
    {input s digits rest : List Char} (hinput : input.dropWhile isSpace = s ++ (digits ++ rest))
    (hs : s ∈ signs) (hsign : s = [] → Ends isSign (digits ++ rest))
    (hdigits : AllDigits digits) (hrest : Ends Char.isDigit rest) :
    integerRule input =
      if digits ≠ [] ∧ InRange (signedValue s digits) ∧ lit '.' rest = none then
        some (signedValue s digits, rest)
      else none := by
  have hlong := run_long hinput hs hsign hdigits hrest
  unfold integerRule
  by_cases htaken : digits ≠ [] ∧ InRange (signedValue s digits)
  · rw [if_pos htaken] at hlong
    rw [bind_taken hlong, run_bind, notAhead]
    cases hpoint : lit '.' rest with
    | none => simp [htaken]
    | some x => simp
  · rw [if_neg htaken] at hlong
    rw [bind_failed hlong, if_neg fun h => htaken ⟨h.1, h.2.1⟩]

theorem integerRule_eq_some
    {input rest : List Char} {v : ℤ} (h : integerRule input = some (v, rest)) :
    long input = some (v, rest) := by
  obtain ⟨w, rest', hlong, h⟩ := bind_eq_some.1 h
  obtain ⟨u, rest'', hnot, h⟩ := bind_eq_some.1 h
  cases h
  unfold notAhead at hnot
  split at hnot
  · cases hnot
  · cases hnot
    exact hlong

/-! ## Words in place of a number -/

theorem noCase_eq_some {letters input taken rest : List Char} :
    noCase letters input = some (taken, rest) ↔
      taken ++ rest = input ∧ taken.map Char.toLower = letters := by
  induction letters generalizing input taken with
  | nil =>
      constructor
      · intro h
        cases h
        exact ⟨rfl, rfl⟩
      · rintro ⟨rfl, h⟩
        rw [List.map_eq_nil_iff.1 h]
        rfl
  | cons c letters ih =>
      unfold noCase
      constructor
      · intro h
        obtain ⟨d, middle, hd, h⟩ := bind_eq_some.1 h
        obtain ⟨tail, rest', htail, h⟩ := bind_eq_some.1 h
        cases h
        obtain ⟨rfl, hlower⟩ := satisfy_eq_some.1 hd
        obtain ⟨rfl, hmap⟩ := ih.1 htail
        exact ⟨rfl, by rw [List.map_cons, hmap, of_decide_eq_true hlower]⟩
      · rintro ⟨rfl, hmap⟩
        cases taken with
        | nil => cases hmap
        | cons d taken =>
            obtain ⟨hd, htail⟩ := List.cons.inj hmap
            have hletter : satisfy (fun d => decide (d.toLower = c)) (d :: (taken ++ rest)) =
                some (d, taken ++ rest) := by
              rw [satisfy_cons, if_pos (decide_eq_true hd)]
            rw [List.cons_append, bind_taken hletter, bind_taken (ih.2 ⟨rfl, htail⟩)]
            rfl

theorem noCase_fails
    {c : Char} {letters input : List Char} (h : Ends (fun d => d.toLower = c) input) :
    noCase (c :: letters) input = none := by
  cases input with
  | nil => rfl
  | cons d input =>
      unfold noCase
      apply bind_failed
      rw [satisfy_cons, ends_cons.1 h]
      rfl

/-- `nan` and what may follow it in parentheses. -/
def IsNan (name : List Char) : Prop :=
  ∃ nan tail, nan.map Char.toLower = ['n', 'a', 'n'] ∧
    (tail = [] ∨ ∃ inner, ')' ∉ inner ∧ tail = '(' :: inner ++ [')']) ∧ name = nan ++ tail

/-- `inf` or `infinity`. -/
def IsInf (name : List Char) : Prop :=
  ∃ inf tail, inf.map Char.toLower = ['i', 'n', 'f'] ∧
    (tail = [] ∨ tail.map Char.toLower = ['i', 'n', 'i', 't', 'y']) ∧ name = inf ++ tail

theorem nanTail_eq_some {input tail rest : List Char} (h : nanTail input = some (tail, rest)) :
    tail ++ rest = input ∧ (tail = [] ∨ ∃ inner, ')' ∉ inner ∧ tail = '(' :: inner ++ [')']) := by
  cases orElse_eq_some.1 h with
  | inl h =>
      obtain ⟨l, afterLeft, hl, h⟩ := bind_eq_some.1 h
      obtain ⟨inner, afterInner, hinner, h⟩ := bind_eq_some.1 h
      obtain ⟨r, rest', hr, h⟩ := bind_eq_some.1 h
      cases h
      obtain ⟨rfl, hleft⟩ := satisfy_eq_some.1 hl
      obtain ⟨rfl, hall, -⟩ := many_satisfy_eq_some hinner
      obtain ⟨rfl, hright⟩ := satisfy_eq_some.1 hr
      have hleft : l = '(' := of_decide_eq_true hleft
      have hright : r = ')' := of_decide_eq_true hright
      rw [hleft, hright]
      refine ⟨by simp, Or.inr ⟨inner, ?_, rfl⟩⟩
      intro hmem
      simpa using hall ')' hmem
  | inr h =>
      have h := h.2
      rw [run_map, Option.map_eq_some_iff] at h
      obtain ⟨x, hx, ⟨⟩⟩ := h
      unfold notAhead at hx
      split at hx
      · cases hx
      · cases hx
        exact ⟨rfl, Or.inl rfl⟩

theorem takes_nanTail
    {tail rest : List Char}
    (htail : tail = [] ∨ ∃ inner, ')' ∉ inner ∧ tail = '(' :: inner ++ [')'])
    (hrest : Ends (fun c => c = '(') rest) : nanTail (tail ++ rest) = some (tail, rest) := by
  unfold nanTail
  cases htail with
  | inl htail =>
      have hchar : char '(' rest = none := by
        cases rest with
        | nil => rfl
        | cons c rest =>
            have hc : c ≠ '(' := by
              simpa [ends_cons] using hrest
            simp [char, satisfy_cons, hc]
      rw [htail, List.nil_append, orElse_failed (bind_failed hchar _), run_map, notAhead, hchar]
      rfl
  | inr htail =>
      obtain ⟨inner, hinner, rfl⟩ := htail
      have hinside : ∀ c ∈ inner, decide (c ≠ ')') = true := by
        intro c hc
        rw [decide_eq_true_iff]
        rintro rfl
        exact hinner hc
      have hend : Ends (fun c => decide (c ≠ ')')) (')' :: rest) := ends_cons.2 (by decide)
      have hmany := many_of_ends hinside hend
      apply orElse_taken
      rw [List.append_assoc, List.cons_append]
      rw [bind_taken (show char '(' ('(' :: _) = some ('(', _) from rfl)]
      rw [bind_taken (show many _ (inner ++ ([')'] ++ rest)) = _ from hmany)]
      rfl

theorem nanWord_eq_some {input name rest : List Char} (h : nanWord input = some (name, rest)) :
    name ++ rest = input ∧ IsNan name := by
  obtain ⟨nan, afterNan, hnan, h⟩ := bind_eq_some.1 h
  obtain ⟨tail, rest', htail, h⟩ := bind_eq_some.1 h
  cases h
  obtain ⟨rfl, hlower⟩ := noCase_eq_some.1 hnan
  obtain ⟨rfl, hform⟩ := nanTail_eq_some htail
  exact ⟨List.append_assoc nan tail rest, nan, tail, hlower, hform, rfl⟩

theorem takes_nanWord {name : List Char} (hname : IsNan name) :
    Takes nanWord name name Delimits := by
  intro rest hrest
  obtain ⟨nan, tail, hlower, htail, rfl⟩ := hname
  have hword : noCase ['n', 'a', 'n'] (nan ++ (tail ++ rest)) = some (nan, tail ++ rest) :=
    noCase_eq_some.2 ⟨rfl, hlower⟩
  unfold nanWord
  rw [List.append_assoc, bind_taken hword, bind_taken (takes_nanTail htail hrest.parenthesis)]
  rfl

theorem infWord_eq_some {input name rest : List Char} (h : infWord input = some (name, rest)) :
    name ++ rest = input ∧ IsInf name := by
  obtain ⟨inf, afterInf, hinf, h⟩ := bind_eq_some.1 h
  obtain ⟨tail, rest', htail, h⟩ := bind_eq_some.1 h
  cases h
  obtain ⟨rfl, hlower⟩ := noCase_eq_some.1 hinf
  cases orElse_eq_some.1 htail with
  | inl htail =>
      obtain ⟨rfl, hform⟩ := noCase_eq_some.1 htail
      exact ⟨List.append_assoc inf tail rest, inf, tail, hlower, Or.inr hform, rfl⟩
  | inr htail =>
      cases htail.2
      exact ⟨by rw [List.append_nil], inf, [], hlower, Or.inl rfl, rfl⟩

theorem takes_infWord {name : List Char} (hname : IsInf name) :
    Takes infWord name name Delimits := by
  intro rest hrest
  obtain ⟨inf, tail, hlower, htail, rfl⟩ := hname
  have hword : noCase ['i', 'n', 'f'] (inf ++ (tail ++ rest)) = some (inf, tail ++ rest) :=
    noCase_eq_some.2 ⟨rfl, hlower⟩
  have hinity : orDefault (noCase ['i', 'n', 'i', 't', 'y']) [] (tail ++ rest) =
      some (tail, rest) := by
    cases htail with
    | inl htail =>
        rw [htail, List.nil_append]
        exact orElse_failed (noCase_fails hrest.letter) _
    | inr htail => exact orElse_taken (noCase_eq_some.2 ⟨rfl, htail⟩) _
  unfold infWord
  rw [List.append_assoc, bind_taken hword, bind_taken hinity]
  rfl

/-- Such a word begins with a letter of its own. -/
theorem IsNan.head {name : List Char} (h : IsNan name) :
    ∃ c tail, name = c :: tail ∧ c.toLower = 'n' := by
  obtain ⟨nan, tail, hlower, -, rfl⟩ := h
  cases nan with
  | nil => cases hlower
  | cons c nan => exact ⟨c, nan ++ tail, rfl, (List.cons.inj hlower).1⟩

theorem IsInf.head {name : List Char} (h : IsInf name) :
    ∃ c tail, name = c :: tail ∧ c.toLower = 'i' := by
  obtain ⟨inf, tail, hlower, -, rfl⟩ := h
  cases inf with
  | nil => cases hlower
  | cons c inf => exact ⟨c, inf ++ tail, rfl, (List.cons.inj hlower).1⟩

theorem name_head {name : List Char} (h : IsNan name ∨ IsInf name) :
    ∃ c tail, name = c :: tail ∧ (c.toLower = 'n' ∨ c.toLower = 'i') := by
  cases h with
  | inl h =>
      obtain ⟨c, tail, hname, hc⟩ := h.head
      exact ⟨c, tail, hname, Or.inl hc⟩
  | inr h =>
      obtain ⟨c, tail, hname, hc⟩ := h.head
      exact ⟨c, tail, hname, Or.inr hc⟩

theorem isSign_of_toLower {c : Char} (hc : c.toLower = 'n' ∨ c.toLower = 'i') :
    isSign c = false := by
  rw [isSign, decide_eq_false_iff_not]
  rintro (rfl | rfl) <;> exact absurd hc (by decide)

theorem takes_notANumber
    {s name : List Char} (hs : s ∈ signs) (hname : IsNan name ∨ IsInf name) :
    Takes notANumber (s ++ name) (s ++ name) Delimits := by
  intro rest hrest
  have hsign : sign (s ++ (name ++ rest)) = some (s, name ++ rest) := by
    apply takes_sign hs
    intro _
    obtain ⟨c, tail, rfl, hc⟩ := name_head hname
    exact ends_cons.2 (isSign_of_toLower hc)
  have hword : (nanWord <|> infWord) (name ++ rest) = some (name, rest) := by
    cases hname with
    | inl h => exact orElse_taken (takes_nanWord h rest hrest) _
    | inr h =>
        have hnan : nanWord (name ++ rest) = none := by
          obtain ⟨c, tail, rfl, hc⟩ := h.head
          apply bind_failed
          apply noCase_fails
          rw [List.cons_append, ends_cons, hc]
          rfl
        rw [orElse_failed hnan]
        exact takes_infWord h rest hrest
  unfold notANumber
  rw [List.append_assoc, bind_taken hsign, bind_taken hword]
  rfl

theorem notANumber_eq_some
    {input taken rest : List Char} (h : notANumber input = some (taken, rest)) :
    taken ++ rest = input ∧
      ∃ s name, s ∈ signs ∧ (IsNan name ∨ IsInf name) ∧ taken = s ++ name := by
  obtain ⟨s, afterSign, hs, h⟩ := bind_eq_some.1 h
  obtain ⟨name, rest', hname, h⟩ := bind_eq_some.1 h
  cases h
  obtain ⟨rfl, hsigns⟩ := sign_eq_some hs
  have hname : name ++ rest = afterSign ∧ (IsNan name ∨ IsInf name) := by
    cases orElse_eq_some.1 hname with
    | inl h => exact ⟨(nanWord_eq_some h).1, Or.inl (nanWord_eq_some h).2⟩
    | inr h => exact ⟨(infWord_eq_some h.2).1, Or.inr (infWord_eq_some h.2).2⟩
  refine ⟨?_, s, name, hsigns, hname.2, rfl⟩
  rw [List.append_assoc, hname.1]

/-- A numeral is no such word. -/
theorem notANumber_fails
    {s rest : List Char} (hs : s ∈ signs) (hsign : s = [] → Ends isSign rest)
    (hrest : Ends (fun c => c.toLower = 'n' ∨ c.toLower = 'i') rest) :
    notANumber (s ++ rest) = none := by
  have hn : Ends (fun c => c.toLower = 'n') rest := by
    intro c hc
    have := hrest c hc
    simp only [decide_eq_false_iff_not, not_or] at this ⊢
    exact this.1
  have hi : Ends (fun c => c.toLower = 'i') rest := by
    intro c hc
    have := hrest c hc
    simp only [decide_eq_false_iff_not, not_or] at this ⊢
    exact this.2
  unfold notANumber
  rw [bind_taken (takes_sign hs hsign)]
  apply bind_failed
  have hnan : nanWord rest = none := bind_failed (noCase_fails hn) _
  rw [orElse_failed hnan]
  exact bind_failed (noCase_fails hi) _

/-! ## The two number alternatives -/

/-- The words that the reader takes for a number. -/
def ReadsNumber (w : List Char) : Prop :=
  (∃ n : Numeral, n.WellFormed ∧ (n.Plain → n.exponent = none) ∧ n.text = w) ∨
    ∃ s name, s ∈ signs ∧ (IsNan name ∨ IsInf name) ∧ w = s ++ name

/-- A number between one and two. -/
def oneAndAHalf : Numeral :=
  ⟨[], ['1'], some ['5'], none⟩

theorem readsNumber_oneAndAHalf : ReadsNumber "1.5".toList := by
  refine Or.inl ⟨oneAndAHalf, ?_, by decide, rfl⟩
  constructor <;> simp [oneAndAHalf, AllDigits, signs]

theorem Numeral.WellFormed.head
    {n : Numeral} (hn : n.WellFormed) (rest : List Char) :
    ∃ c tail, n.whole ++ (fractionText n.fraction ++ rest) = c :: tail ∧
      (c.isDigit = true ∨ c = '.') := by
  cases hwhole : n.whole with
  | cons d whole =>
      refine ⟨d, whole ++ (fractionText n.fraction ++ rest), rfl, Or.inl ?_⟩
      exact hn.whole d (by rw [hwhole]; exact List.mem_cons_self)
  | nil =>
      cases hfraction : n.fraction with
      | some digits => exact ⟨'.', digits ++ rest, rfl, Or.inr rfl⟩
      | none =>
          have hdigit := hn.digit
          simp [hwhole, hfraction] at hdigit

theorem not_isSign_of_head {c : Char} (hc : c.isDigit = true ∨ c = '.') : isSign c = false := by
  rcases hc with hc | rfl
  · exact not_isSign_of_isDigit hc
  · rfl

theorem toLower_eq_self {c : Char} (hc : c.toNat < 65) : c.toLower = c := by
  unfold Char.toLower
  rw [dif_neg]
  rintro ⟨hle, -⟩
  have hle : 65 ≤ c.toNat := UInt32.le_iff_toNat_le.1 hle
  omega

theorem not_letter_of_head {c : Char} (hc : c.isDigit = true ∨ c = '.') :
    decide (c.toLower = 'n' ∨ c.toLower = 'i') = false := by
  rcases hc with hc | rfl
  · have hle : c.toNat ≤ 57 := (Char.isDigit_iff_toNat.1 hc).2
    have hlower : c.toLower = c := toLower_eq_self (by omega)
    rw [hlower, decide_eq_false_iff_not]
    rintro (rfl | rfl) <;> exact absurd hc (by decide)
  · rfl

theorem lit_point_exponent (e : Char × List Char × List Char) (he : IsExponent e)
    (rest : List Char) : lit '.' (exponentText (some e) ++ rest) = none := by
  have hmark : e.1 = 'e' ∨ e.1 = 'E' := of_decide_eq_true he.1
  have hnext : Next ['e', 'E'] (exponentText (some e) ++ rest) := by
    rw [exponentText, List.append_assoc, List.cons_append]
    rcases hmark with h | h <;> rw [h, next_cons (by decide)] <;> decide
  exact lit_fails hnext (by decide)

/-- The parts of a numeral up to its exponent, as the integer alternative sees them. -/
theorem Numeral.WellFormed.integer_split
    {n : Numeral} (hn : n.WellFormed) {input rest : List Char}
    (hinput : input.dropWhile isSpace = n.text ++ rest) :
    input.dropWhile isSpace =
        n.sign ++ (n.whole ++ (fractionText n.fraction ++ (exponentText n.exponent ++ rest))) ∧
      (n.sign = [] → Ends isSign
        (n.whole ++ (fractionText n.fraction ++ (exponentText n.exponent ++ rest)))) := by
  constructor
  · rw [hinput, n.text_eq]
    simp only [List.append_assoc]
  · intro _
    obtain ⟨c, tail, hhead, hc⟩ := hn.head (exponentText n.exponent ++ rest)
    rw [hhead, ends_cons]
    exact not_isSign_of_head hc

/-- The digits of an integer are taken without the exponent behind them. -/
theorem run_integerRule_exponent
    {n : Numeral} (hn : n.WellFormed) (hplain : n.Plain) {e : Char × List Char × List Char}
    (he : n.exponent = some e) {input rest : List Char}
    (hinput : input.dropWhile isSpace = n.text ++ rest) :
    integerRule input = some (signedValue n.sign n.whole, exponentText (some e) ++ rest) := by
  obtain ⟨hsplit, hsign⟩ := hn.integer_split hinput
  have hexponent := hn.exponent e he
  have hwhole : n.whole ≠ [] := by
    simpa [hplain.1] using hn.digit
  rw [hplain.1, fractionText, List.nil_append, he] at hsplit hsign
  have hdigit : Ends Char.isDigit (exponentText (some e) ++ rest) := by
    have hmark : e.1 = 'e' ∨ e.1 = 'E' := of_decide_eq_true hexponent.1
    rw [exponentText, List.append_assoc, List.cons_append, ends_cons]
    rcases hmark with h | h <;> rw [h] <;> rfl
  rw [run_integerRule hsplit hn.sign hsign hn.whole hdigit,
    if_pos ⟨hwhole, hplain.2, lit_point_exponent e hexponent rest⟩]

/-- A numeral that is no plain integer is left to the decimal alternative. -/
theorem run_integerRule_decimal
    {n : Numeral} (hn : n.WellFormed) (hplain : ¬ n.Plain) {input rest : List Char}
    (hrest : Delimits rest) (hinput : input.dropWhile isSpace = n.text ++ rest) :
    integerRule input = none := by
  obtain ⟨hsplit, hsign⟩ := hn.integer_split hinput
  rw [run_integerRule hsplit hn.sign hsign hn.whole (ends_fractionText hn hrest), if_neg]
  rintro ⟨-, hrange, hpoint⟩
  cases hfraction : n.fraction with
  | none => exact hplain ⟨hfraction, hrange⟩
  | some digits =>
      rw [hfraction, fractionText, List.cons_append, lit_head (by decide)] at hpoint
      cases hpoint

theorem run_integerRule_plain
    {n : Numeral} (hn : n.WellFormed) (hplain : n.Plain) (he : n.exponent = none)
    {input rest : List Char} (hrest : Delimits rest) (hpoint : lit '.' rest = none)
    (hinput : input.dropWhile isSpace = n.text ++ rest) :
    integerRule input = some (signedValue n.sign n.whole, rest) := by
  obtain ⟨hsplit, hsign⟩ := hn.integer_split hinput
  have hwhole : n.whole ≠ [] := by
    simpa [hplain.1] using hn.digit
  rw [hplain.1, he, fractionText, exponentText, List.nil_append, List.nil_append] at hsplit hsign
  rw [run_integerRule hsplit hn.sign hsign hn.whole hrest.digit,
    if_pos ⟨hwhole, hplain.2, hpoint⟩]

theorem run_double_numeral
    {n : Numeral} (hn : n.WellFormed) {input rest : List Char} (hrest : Delimits rest)
    (hinput : input.dropWhile isSpace = n.text ++ rest) :
    double input = some (n.text, rest) := by
  have hname : notANumber (n.text ++ rest) = none := by
    obtain ⟨c, tail, hhead, hc⟩ := hn.head (exponentText n.exponent ++ rest)
    rw [n.text_eq]
    simp only [List.append_assoc]
    rw [hhead]
    apply notANumber_fails hn.sign
    · exact fun _ => ends_cons.2 (not_isSign_of_head hc)
    · exact ends_cons.2 (not_letter_of_head hc)
  unfold double
  rw [bind_taken (run_skip input), hinput, orElse_failed hname, run_map, takes_numeral hn rest hrest]
  rfl

section

variable (decimalText : List Char → String)

/-- The integer alternative and the decimal one behind it. -/
def numberRule (otherwise : Scanner Char Value) : Scanner Char Value :=
  Value.integer <$> integerRule <|>
    ((fun digits => Value.decimal (decimalText digits)) <$> double <|> otherwise)

/-- A number is read up to the end of its word. -/
theorem numberRule_taken
    (otherwise : Scanner Char Value) {w : List Char} (hw : ReadsNumber w) :
    ∃ v, ∀ input rest, Delimits rest → lit '.' rest = none →
      input.dropWhile isSpace = w ++ rest →
      numberRule decimalText otherwise input = some (v, rest) := by
  unfold numberRule
  rcases hw with ⟨n, hn, hplain, rfl⟩ | ⟨s, name, hs, hname, rfl⟩
  · by_cases h : n.Plain
    · refine ⟨.integer (signedValue n.sign n.whole), fun input rest hrest hpoint hinput => ?_⟩
      have hinteger := run_integerRule_plain hn h (hplain h) hrest hpoint hinput
      exact orElse_taken (by rw [run_map, hinteger]; rfl) _
    · refine ⟨.decimal (decimalText n.text), fun input rest hrest _ hinput => ?_⟩
      have hinteger := run_integerRule_decimal hn h hrest hinput
      rw [orElse_failed (by rw [run_map, hinteger]; rfl)]
      exact orElse_taken (by rw [run_map, run_double_numeral hn hrest hinput]; rfl) _
  · refine ⟨.decimal (decimalText (s ++ name)), fun input rest hrest _ hinput => ?_⟩
    have hinteger : integerRule input = none := by
      obtain ⟨c, tail, hhead, hc⟩ := name_head hname
      have hdigit : c.isDigit = false := by
        by_contra h
        have hnot := not_letter_of_head (Or.inl (Bool.not_eq_false _ ▸ h))
        exact absurd hc (of_decide_eq_false hnot)
      have hsplit : input.dropWhile isSpace = s ++ ([] ++ (name ++ rest)) := by
        rw [hinput, List.append_assoc]
        rfl
      rw [run_integerRule hsplit hs, if_neg fun h => h.1 rfl]
      · intro _
        rw [hhead]
        exact ends_cons.2 (isSign_of_toLower hc)
      · exact fun c hc => absurd hc List.not_mem_nil
      · rw [hhead]
        exact ends_cons.2 hdigit
    have hdouble : double input = some (s ++ name, rest) := by
      unfold double
      rw [bind_taken (run_skip input), hinput]
      exact orElse_taken (takes_notANumber hs hname rest hrest) _
    rw [orElse_failed (by rw [run_map, hinteger]; rfl)]
    exact orElse_taken (by rw [run_map, hdouble]; rfl) _

theorem numberRule_eq_some
    {otherwise : Scanner Char Value} {input rest : List Char} {v : Value}
    (h : numberRule decimalText otherwise input = some (v, rest)) :
    (∃ w, ReadsNumber w ∧ input.dropWhile isSpace = w ++ rest) ∨
      otherwise input = some (v, rest) := by
  cases orElse_eq_some.1 h with
  | inl h =>
      left
      rw [run_map, Option.map_eq_some_iff] at h
      obtain ⟨x, hx, ⟨⟩⟩ := h
      obtain ⟨s, digits, hinput, hs, hne, hdigits, hvalue, hrange⟩ :=
        long_eq_some (integerRule_eq_some hx)
      have hn : Numeral.WellFormed ⟨s, digits, none, none⟩ :=
        ⟨hs, hdigits, fun _ h => (by cases h), Or.inl hne, fun _ h => (by cases h)⟩
      refine ⟨s ++ digits, Or.inl ⟨⟨s, digits, none, none⟩, hn, fun _ => rfl, ?_⟩, ?_⟩
      · simp [Numeral.text_eq, fractionText, exponentText]
      · rw [hinput, List.append_assoc]
  | inr h =>
      obtain ⟨hinteger, h⟩ := h
      cases orElse_eq_some.1 h with
      | inr h => exact Or.inr h.2
      | inl h =>
          left
          rw [run_map, Option.map_eq_some_iff] at h
          obtain ⟨x, hx, ⟨⟩⟩ := h
          obtain ⟨u, skipped, hskip, hx⟩ := bind_eq_some.1 hx
          cases hskip
          cases orElse_eq_some.1 hx with
          | inl hx =>
              obtain ⟨happend, hname⟩ := notANumber_eq_some hx
              exact ⟨x.1, Or.inr hname, happend.symm⟩
          | inr hx =>
              have hx := hx.2
              rw [run_map, Option.map_eq_some_iff] at hx
              obtain ⟨⟨n, rest'⟩, hn, hx⟩ := hx
              obtain ⟨happend, hwell⟩ := numeral_eq_some hn
              cases hx
              refine ⟨n.text, Or.inl ⟨n, hwell, ?_, rfl⟩, happend.symm⟩
              intro hplain
              by_contra hexponent
              obtain ⟨e, he⟩ := Option.ne_none_iff_exists'.1 hexponent
              rw [run_map, run_integerRule_exponent hwell hplain he happend.symm] at hinteger
              cases hinteger

end

end ArtdaqDatabase
