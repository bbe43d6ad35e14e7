import ArtdaqDatabase.OrderedChoice

/-!
# The grammar of comments

The grammar of `fhicl_reader.h` that finds the comments of a FHiCL text, rule by rule, over
characters that know their line.  What each rule takes is then said without the grammar: the
rules go on to the first place of some kind.
-/

namespace ArtdaqDatabase

namespace FhiclComments

open Scanner

/-! ## Positions -/

/-- A character and the line that `line_pos_iterator` gives for it. -/
abbrev Position := Char × ℕ

/-- A return and a newline next to each other end one line. -/
def endsLine (prev c : Char) : Bool :=
  (c = '\r' && prev ≠ '\n') || (c = '\n' && prev ≠ '\r')

def numbered (prev : Char) (line : ℕ) : List Char → List Position
  | [] => []
  | c :: rest => (c, line) :: numbered c (if endsLine prev c then line + 1 else line) rest

/-! ## The rules -/

/-- `ascii::char_`. -/
def asciiChar : Scanner Position Position :=
  satisfy fun t => t.1.toNat < 128

/-- `qi::lit`. -/
def literal (c : Char) : Scanner Position Unit :=
  (fun _ => ()) <$> satisfy fun t => t.1 = c

/-- The difference operator: the second parser is tried first. -/
def difference {α β : Type} (p : Scanner Position α) (q : Scanner Position β) :
    Scanner Position α :=
  notAhead q >>= fun _ => p

/-- `lit("#") | lit("//")`. -/
def marker : Scanner Position Unit :=
  literal '#' <|> (literal '/' >>= fun _ => literal '/')

def whitespaceRule : Scanner Position (List Position) :=
  many (difference asciiChar marker)

def whitespaceB4QuotedStringRule : Scanner Position (List Position) :=
  many (difference asciiChar (literal '"' <|> literal '\'' <|> marker))

/-- `double_quoted_string_rule` and `single_quoted_string_rule`, by their quote. -/
def quotedStringRule (quote : Char) : Scanner Position (List Position) := do
  literal quote
  let text ← many1 (difference asciiChar (literal quote))
  literal quote
  return text

/-- A quoted string and what stands behind it. -/
def stringPadding : Scanner Position (List Position) :=
  (quotedStringRule '"' <|> quotedStringRule '\'') >>= fun _ => whitespaceB4QuotedStringRule

def paddedQuotedStringRule : Scanner Position (List (List Position)) := do
  let _ ← whitespaceB4QuotedStringRule
  many stringPadding

/-- `qi::eol`. -/
def eol : Scanner Position Unit :=
  (literal '\r' >>= fun _ => orDefault (literal '\n') ()) <|> literal '\n'

/-- `qi::eoi`. -/
def eoi : Scanner Position Unit :=
  notAhead (satisfy fun _ => true)

def stringRule : Scanner Position (List Position) :=
  many1 (difference asciiChar (eol <|> eoi))

/-- The line where a comment begins, and its text. -/
def commentOf (text : List Position) : ℕ × String :=
  ((text.head?.map Prod.snd).getD 0, String.ofList (text.map Prod.fst))

def commentRule : Scanner Position (ℕ × String) :=
  commentOf <$> stringRule

/-- The skipper `qi::blank`. -/
def skipBlank : Scanner Position Unit :=
  skipWhile fun t => t.1 = ' ' || t.1 = '\t'

/-- An item of the list in `comments_rule`. -/
def item : Scanner Position (ℕ × String) := do
  skipBlank
  let _ ← paddedQuotedStringRule
  skipBlank
  let _ ← whitespaceRule
  skipBlank
  commentRule

def separator : Scanner Position Unit :=
  skipBlank >>= fun _ => eol

def commentsRule : Scanner Position (List (ℕ × String)) :=
  sepBy1 item separator

/-! ## Places -/

def isMarker : List Position → Bool
  | [] => false
  | [t] => t.1 = '#'
  | t :: u :: _ => t.1 = '#' || (t.1 = '/' && u.1 = '/')

def isQuote (c : Char) : Bool :=
  c = '"' || c = '\''

def isEol (c : Char) : Bool :=
  c = '\n' || c = '\r'

/-- A quote or a marker. -/
def isStop (input : List Position) : Bool :=
  isMarker input || input.head?.any fun t => isQuote t.1

/-- What is left from the first place of a kind. -/
def seek (stop : List Position → Bool) : List Position → List Position
  | [] => []
  | t :: rest => if stop (t :: rest) then t :: rest else seek stop rest

def Ascii (input : List Position) : Prop :=
  ∀ t ∈ input, t.1.toNat < 128

theorem length_seek_le (stop : List Position → Bool) (input : List Position) :
    (seek stop input).length ≤ input.length := by
  induction input with
  | nil => exact Nat.le_refl _
  | cons t rest ih =>
      rw [seek]
      split
      · exact Nat.le_refl _
      · exact Nat.le_succ_of_le ih

theorem suffix_seek (stop : List Position → Bool) (input : List Position) :
    seek stop input <:+ input := by
  induction input with
  | nil => exact List.suffix_refl _
  | cons t rest ih =>
      rw [seek]
      split
      · exact List.suffix_refl _
      · exact ih.trans (List.suffix_cons t rest)

theorem seek_of_stop {stop : List Position → Bool} {input : List Position}
    (h : stop input = true) : seek stop input = input := by
  cases input with
  | nil => rfl
  | cons t rest => rw [seek, if_pos h]

/-- The place that is found is of the kind, or the end. -/
theorem stop_seek (stop : List Position → Bool) (input : List Position) :
    seek stop input = [] ∨ stop (seek stop input) = true := by
  induction input with
  | nil => exact Or.inl rfl
  | cons t rest ih =>
      rw [seek]
      split
      · rename_i h
        exact Or.inr h
      · exact ih

theorem Ascii.suffix {input rest : List Position} (h : Ascii input) (hrest : rest <:+ input) :
    Ascii rest :=
  fun t ht => h t (hrest.mem ht)

/-! ## What the rules take -/

theorem literal_cons (c : Char) (t : Position) (rest : List Position) :
    literal c (t :: rest) = if t.1 = c then some ((), rest) else none := by
  rw [literal, run_map, satisfy_cons]
  by_cases h : t.1 = c <;> simp [h]

theorem literal_nil (c : Char) : literal c [] = none := rfl

theorem isSome_marker (input : List Position) : (marker input).isSome = isMarker input := by
  cases input with
  | nil => rfl
  | cons t rest =>
      rw [marker, run_orElse, run_bind, literal_cons, literal_cons]
      by_cases hhash : t.1 = '#'
      · cases rest <;> simp [isMarker, hhash]
      · cases rest with
        | nil => by_cases hslash : t.1 = '/' <;> simp [isMarker, hhash, hslash, literal_nil]
        | cons u rest =>
            by_cases hslash : t.1 = '/' <;> by_cases hnext : u.1 = '/' <;>
              simp [isMarker, hhash, hslash, hnext, literal_cons]

theorem consumes_difference {β : Type} (q : Scanner Position β) :
    Consumes (difference asciiChar q) := by
  intro input a rest h
  rw [difference, bind_eq_some] at h
  obtain ⟨u, middle, hahead, h⟩ := h
  unfold notAhead at hahead
  split at hahead
  · cases hahead
  · cases hahead
    exact consumes_satisfy _ _ _ _ h

/-- One character, unless the other parser matches. -/
theorem difference_cons {β : Type} (q : Scanner Position β) (rest : List Position) {t : Position}
    (ht : t.1.toNat < 128) :
    difference asciiChar q (t :: rest) =
      if (q (t :: rest)).isSome then none else some (t, rest) := by
  rw [difference, run_bind, notAhead]
  cases hq : q (t :: rest) with
  | some x => rfl
  | none =>
      change asciiChar (t :: rest) = some (t, rest)
      rw [asciiChar, satisfy_cons, decide_eq_true ht]
      rfl

theorem many_difference {β : Type} (q : Scanner Position β) {input : List Position}
    (hascii : Ascii input) :
    ∃ taken, many (difference asciiChar q) input =
        some (taken, seek (fun s => (q s).isSome) input) ∧
      taken ++ seek (fun s => (q s).isSome) input = input := by
  induction input with
  | nil => exact ⟨[], rfl, rfl⟩
  | cons t rest ih =>
      have hrest : Ascii rest := hascii.suffix (List.suffix_cons t rest)
      have hone := difference_cons q rest (hascii t List.mem_cons_self)
      rw [seek]
      cases hq : (q (t :: rest)).isSome with
      | true =>
          rw [hq, if_pos rfl] at hone
          exact ⟨[], many_stop hone, rfl⟩
      | false =>
          rw [hq, if_neg (by decide)] at hone
          have ⟨taken, htaken, happend⟩ := ih hrest
          exact ⟨t :: taken, many_next (consumes_difference q) hone htaken, by
            rw [if_neg (by decide), List.cons_append, happend]⟩

/-! ## Quoted strings -/

def headIs (c : Char) (input : List Position) : Bool :=
  input.head?.any fun t => t.1 = c

theorem headIs_cons (c : Char) (t : Position) (rest : List Position) :
    headIs c (t :: rest) = decide (t.1 = c) := rfl

theorem isSome_literal (c : Char) (input : List Position) :
    (literal c input).isSome = headIs c input := by
  cases input with
  | nil => rfl
  | cons t rest =>
      rw [literal_cons, headIs_cons]
      by_cases h : t.1 = c <;> simp [h]

/-- What stands behind a string, given what stands behind its opening quote: a string has at
least one character. -/
def stringEnd (quote : Char) (input : List Position) : Option (List Position) :=
  if headIs quote input then none
  else
    match seek (headIs quote) input with
    | [] => none
    | _ :: after => some after

/-- What stands behind the quoted string at the head, if there is one. -/
def quotedEnd : List Position → Option (List Position)
  | [] => none
  | t :: rest => if isQuote t.1 then stringEnd t.1 rest else none

theorem suffix_stringEnd {quote : Char} {input after : List Position}
    (h : stringEnd quote input = some after) : after <:+ input := by
  unfold stringEnd at h
  split at h
  · cases h
  · have hsuffix := suffix_seek (headIs quote) input
    split at h
    · cases h
    · rename_i t after' heq
      cases h
      rw [heq] at hsuffix
      exact (List.suffix_cons t after).trans hsuffix

theorem suffix_quotedEnd {input after : List Position} (h : quotedEnd input = some after) :
    after <:+ input ∧ after.length < input.length := by
  cases input with
  | nil => cases h
  | cons t rest =>
      rw [quotedEnd] at h
      split at h
      · have hsuffix := suffix_stringEnd h
        exact ⟨hsuffix.trans (List.suffix_cons t rest), Nat.lt_succ_of_le hsuffix.length_le⟩
      · cases h

theorem quotedStringRule_of_stringEnd
    {quote : Char} {t : Position} {rest : List Position} (hquote : t.1 = quote)
    (hascii : Ascii rest) :
    (stringEnd quote rest = none → quotedStringRule quote (t :: rest) = none) ∧
      ∀ after, stringEnd quote rest = some after →
        ∃ text, quotedStringRule quote (t :: rest) = some (text, after) := by
  have hopen : literal quote (t :: rest) = some ((), rest) := by
    rw [literal_cons, if_pos hquote]
  have hrule : quotedStringRule quote (t :: rest) =
      (many1 (difference asciiChar (literal quote)) >>= fun text =>
        literal quote >>= fun _ => pure text) rest := by
    rw [quotedStringRule, bind_taken hopen]
  have hseek : (fun s => (literal quote s).isSome) = headIs quote :=
    funext fun s => isSome_literal quote s
  rw [hrule]
  unfold stringEnd
  cases rest with
  | nil => exact ⟨fun _ => rfl, fun after h => by cases h⟩
  | cons u more =>
      have hone := difference_cons (literal quote) more (hascii u List.mem_cons_self)
      rw [isSome_literal] at hone
      by_cases hempty : headIs quote (u :: more) = true
      · rw [if_pos hempty] at hone
        rw [if_pos hempty, many1, bind_failed (bind_failed hone _)]
        exact ⟨fun _ => rfl, fun after h => by cases h⟩
      · have hmore : Ascii more := hascii.suffix (List.suffix_cons u more)
        have ⟨taken, htaken, _⟩ := many_difference (literal quote) hmore
        rw [hseek] at htaken
        rw [if_neg hempty] at hone
        have htext : many1 (difference asciiChar (literal quote)) (u :: more) =
            some (u :: taken, seek (headIs quote) more) := by
          rw [many1, bind_taken hone, bind_taken htaken]
          rfl
        rw [if_neg hempty, bind_taken htext, seek, if_neg hempty]
        cases hbehind : seek (headIs quote) more with
        | nil => exact ⟨fun _ => rfl, fun after h => by cases h⟩
        | cons v behind =>
            have hclose : headIs quote (v :: behind) = true := by
              have h := (stop_seek (headIs quote) more).resolve_left (by rw [hbehind]; simp)
              rwa [hbehind] at h
            have hv : v.1 = quote := of_decide_eq_true hclose
            have hliteral : literal quote (v :: behind) = some ((), behind) := by
              rw [literal_cons, if_pos hv]
            refine ⟨fun h => (by cases h), fun after h => ⟨u :: taken, ?_⟩⟩
            cases h
            rw [bind_taken hliteral]
            rfl

theorem quotedStringRule_other
    {quote : Char} {t : Position} (hquote : t.1 ≠ quote) (rest : List Position) :
    quotedStringRule quote (t :: rest) = none := by
  rw [quotedStringRule]
  apply bind_failed
  rw [literal_cons, if_neg hquote]

/-- Either rule takes the string that is there. -/
theorem quotedString_of_quotedEnd {input : List Position} (hascii : Ascii input) :
    (quotedEnd input = none →
      (quotedStringRule '"' <|> quotedStringRule '\'') input = none) ∧
    ∀ after, quotedEnd input = some after →
      ∃ text, (quotedStringRule '"' <|> quotedStringRule '\'') input = some (text, after) := by
  cases input with
  | nil => exact ⟨fun _ => rfl, fun after h => by cases h⟩
  | cons t rest =>
      have hrest : Ascii rest := hascii.suffix (List.suffix_cons t rest)
      by_cases hdouble : t.1 = '"'
      · have ⟨hnone, hsome⟩ := quotedStringRule_of_stringEnd hdouble hrest
        have hother : quotedStringRule '\'' (t :: rest) = none :=
          quotedStringRule_other (by rw [hdouble]; decide) rest
        have hend : quotedEnd (t :: rest) = stringEnd '"' rest := by
          rw [quotedEnd, hdouble]
          rfl
        rw [hend]
        refine ⟨fun h => ?_, fun after h => ?_⟩
        · rw [orElse_failed (hnone h), hother]
        · have ⟨text, htext⟩ := hsome after h
          exact ⟨text, orElse_taken htext _⟩
      · have hfirst := quotedStringRule_other hdouble rest
        rw [orElse_failed hfirst]
        by_cases hsingle : t.1 = '\''
        · have hend : quotedEnd (t :: rest) = stringEnd '\'' rest := by
            rw [quotedEnd, hsingle]
            rfl
          rw [hend]
          exact quotedStringRule_of_stringEnd hsingle hrest
        · have hend : quotedEnd (t :: rest) = none := by
            simp [quotedEnd, isQuote, hdouble, hsingle]
          rw [hend]
          exact ⟨fun _ => quotedStringRule_other hsingle rest, fun after h => by cases h⟩

/-! ## Padding -/

/-- What the rule of padded strings leaves, from a place where a string may begin. -/
def afterStrings (input : List Position) : List Position :=
  match _h : quotedEnd input with
  | none => input
  | some after => afterStrings (seek isStop after)
termination_by input.length
decreasing_by
  exact Nat.lt_of_le_of_lt (length_seek_le isStop after) (suffix_quotedEnd _h).2

theorem afterStrings_of_none {input : List Position} (h : quotedEnd input = none) :
    afterStrings input = input := by
  rw [afterStrings]
  split
  · rfl
  · rename_i hsome
    rw [h] at hsome
    cases hsome

theorem afterStrings_of_some
    {input after : List Position} (h : quotedEnd input = some after) :
    afterStrings input = afterStrings (seek isStop after) := by
  rw [afterStrings]
  split
  · rename_i hnone
    rw [h] at hnone
    cases hnone
  · rename_i hsome
    rw [h] at hsome
    cases hsome
    rfl

/-- What the rule of padded strings leaves. -/
def afterPadded (input : List Position) : List Position :=
  afterStrings (seek isStop input)

theorem isSome_stop (input : List Position) :
    ((literal '"' <|> literal '\'' <|> marker) input).isSome = isStop input := by
  rw [run_orElse, run_orElse, Option.isSome_or, Option.isSome_or, isSome_literal, isSome_literal,
    isSome_marker, isStop]
  cases input with
  | nil => rfl
  | cons t rest =>
      simp [headIs, isQuote, Bool.or_comm, Bool.or_assoc]

theorem whitespaceB4_taken {input : List Position} (hascii : Ascii input) :
    ∃ taken, whitespaceB4QuotedStringRule input = some (taken, seek isStop input) := by
  have ⟨taken, htaken, _⟩ := many_difference (literal '"' <|> literal '\'' <|> marker) hascii
  rw [show (fun s => ((literal '"' <|> literal '\'' <|> marker) s).isSome) = isStop from
    funext isSome_stop] at htaken
  exact ⟨taken, htaken⟩

theorem consumes_literal (c : Char) : Consumes (literal c) :=
  (consumes_satisfy _).map _

theorem consumes_quotedStringRule (quote : Char) : Consumes (quotedStringRule quote) :=
  (consumes_literal quote).bind fun _ =>
    ((consumes_difference (literal quote)).bind fun _ =>
      (consumes_difference (literal quote)).shrinks.many.bind fun _ => Shrinks.pure _).shrinks.bind
    fun _ => (consumes_literal quote).shrinks.bind fun _ => Shrinks.pure _

theorem consumes_stringPadding : Consumes stringPadding :=
  ((consumes_quotedStringRule '"').orElse (consumes_quotedStringRule '\'')).bind fun _ =>
    (consumes_difference _).shrinks.many

theorem many_stringPadding {input : List Position} (hascii : Ascii input) :
    ∃ taken, many stringPadding input = some (taken, afterStrings input) := by
  induction input using afterStrings.induct with
  | case1 input h =>
      have hstop := (quotedString_of_quotedEnd hascii).1 h
      rw [afterStrings_of_none h]
      exact ⟨[], many_stop (bind_failed hstop _)⟩
  | case2 input after h ih =>
      have ⟨text, htext⟩ := (quotedString_of_quotedEnd hascii).2 after h
      have hbehind := hascii.suffix (suffix_quotedEnd h).1
      have ⟨padding, hpadding⟩ := whitespaceB4_taken hbehind
      have ⟨taken, htaken⟩ := ih (hbehind.suffix (suffix_seek isStop after))
      have hone : stringPadding input = some (padding, seek isStop after) := by
        rw [stringPadding, bind_taken htext, hpadding]
      rw [afterStrings_of_some h]
      exact ⟨padding :: taken, many_next consumes_stringPadding hone htaken⟩

theorem paddedQuotedString_taken {input : List Position} (hascii : Ascii input) :
    ∃ taken, paddedQuotedStringRule input = some (taken, afterPadded input) := by
  have ⟨padding, hpadding⟩ := whitespaceB4_taken hascii
  have ⟨taken, htaken⟩ := many_stringPadding (hascii.suffix (suffix_seek isStop input))
  exact ⟨taken, by rw [paddedQuotedStringRule, bind_taken hpadding, htaken]; rfl⟩

/-! ## Comments -/

/-- The place of the comment that is found next. -/
def nextMarker (input : List Position) : List Position :=
  seek isMarker (afterPadded input)

/-- What stands behind the end of a line. -/
def afterEol : List Position → List Position
  | t :: u :: rest => if t.1 = '\r' ∧ u.1 = '\n' then rest else u :: rest
  | _ => []

def notEol (t : Position) : Bool :=
  !isEol t.1

def isBlank (t : Position) : Bool :=
  t.1 = ' ' || t.1 = '\t'

theorem seek_dropWhile {stop : List Position → Bool} {kind : Position → Bool}
    (hkind : ∀ t rest, kind t = true → stop (t :: rest) = false) (input : List Position) :
    seek stop (input.dropWhile kind) = seek stop input := by
  induction input with
  | nil => rfl
  | cons t rest ih =>
      cases ht : kind t with
      | false => rw [List.dropWhile_cons_of_neg (by simp [ht])]
      | true =>
          rw [List.dropWhile_cons_of_pos ht, ih, seek, hkind t rest ht]
          rfl

theorem isMarker_of_ne {t : Position} (hhash : t.1 ≠ '#') (hslash : t.1 ≠ '/')
    (rest : List Position) : isMarker (t :: rest) = false := by
  cases rest <;> simp [isMarker, hhash, hslash]

theorem isMarker_of_blank {t : Position} (ht : isBlank t = true) (rest : List Position) :
    isMarker (t :: rest) = false := by
  unfold isBlank at ht
  rw [Bool.or_eq_true, decide_eq_true_eq, decide_eq_true_eq] at ht
  apply isMarker_of_ne
  · rintro h
    rw [h] at ht
    exact absurd ht (by decide)
  · rintro h
    rw [h] at ht
    exact absurd ht (by decide)

theorem isStop_of_blank {t : Position} (ht : isBlank t = true) (rest : List Position) :
    isStop (t :: rest) = false := by
  have hmarker := isMarker_of_blank ht rest
  unfold isBlank at ht
  rw [Bool.or_eq_true, decide_eq_true_eq, decide_eq_true_eq] at ht
  have hquote : isQuote t.1 = false := by
    rcases ht with h | h <;> rw [h] <;> rfl
  simp [isStop, hmarker, hquote]

theorem afterPadded_dropWhile (input : List Position) :
    afterPadded (input.dropWhile isBlank) = afterPadded input := by
  rw [afterPadded, seek_dropWhile fun t rest ht => isStop_of_blank ht rest, afterPadded]

theorem run_skipBlank (input : List Position) :
    skipBlank input = some ((), input.dropWhile isBlank) := rfl

theorem suffix_afterStrings (input : List Position) : afterStrings input <:+ input := by
  induction input using afterStrings.induct with
  | case1 input h =>
      rw [afterStrings_of_none h]
  | case2 input after h ih =>
      rw [afterStrings_of_some h]
      exact ih.trans ((suffix_seek isStop after).trans (suffix_quotedEnd h).1)

theorem suffix_afterPadded (input : List Position) : afterPadded input <:+ input :=
  (suffix_afterStrings _).trans (suffix_seek isStop input)

theorem suffix_nextMarker (input : List Position) : nextMarker input <:+ input :=
  (suffix_seek isMarker _).trans (suffix_afterPadded input)

theorem isMarker_nextMarker {input : List Position} (h : nextMarker input ≠ []) :
    isMarker (nextMarker input) = true :=
  (stop_seek isMarker _).resolve_left h

theorem notEol_of_isMarker {t : Position} {rest : List Position}
    (h : isMarker (t :: rest) = true) : notEol t = true ∧ isBlank t = false := by
  by_contra hnot
  have hhash : t.1 ≠ '#' := by
    intro ht
    simp [notEol, isEol, isBlank, ht] at hnot
  have hslash : t.1 ≠ '/' := by
    intro ht
    simp [notEol, isEol, isBlank, ht] at hnot
  rw [isMarker_of_ne hhash hslash] at h
  cases h

theorem isSome_eol (t : Position) (rest : List Position) :
    ((eol <|> eoi) (t :: rest)).isSome = isEol t.1 := by
  have heoi : eoi (t :: rest) = none := rfl
  rw [run_orElse, heoi, Option.or_none, eol, run_orElse, run_bind, literal_cons, literal_cons]
  by_cases hreturn : t.1 = '\r'
  · have hdefault : ∀ input, (orDefault (literal '\n') () input).isSome = true := by
      intro input
      rw [orDefault, run_orElse, run_pure]
      cases literal '\n' input <;> rfl
    simp [hreturn, isEol, hdefault]
  · by_cases hnewline : t.1 = '\n' <;> simp [hnewline, hreturn, isEol]

theorem seek_eol (input : List Position) :
    seek (fun s => ((eol <|> eoi) s).isSome) input = input.dropWhile notEol := by
  induction input with
  | nil => rfl
  | cons t rest ih =>
      rw [seek, isSome_eol]
      cases h : isEol t.1 with
      | true => rw [if_pos rfl, List.dropWhile_cons_of_neg (by simp [notEol, h])]
      | false => rw [if_neg (by decide), List.dropWhile_cons_of_pos (by simp [notEol, h]), ih]

/-- The rest of the line is taken. -/
theorem stringRule_taken {t : Position} {rest : List Position} (hascii : Ascii (t :: rest))
    (ht : notEol t = true) :
    stringRule (t :: rest) =
      some ((t :: rest).takeWhile notEol, (t :: rest).dropWhile notEol) := by
  have hone := difference_cons (eol <|> eoi) rest (hascii t List.mem_cons_self)
  have hends : isEol t.1 = false := by simpa [notEol] using ht
  rw [isSome_eol, hends, if_neg (by decide)] at hone
  have hrest : Ascii rest := hascii.suffix (List.suffix_cons t rest)
  have ⟨taken, htaken, happend⟩ := many_difference (eol <|> eoi) hrest
  rw [seek_eol] at htaken happend
  have hline : taken = rest.takeWhile notEol := by
    have hsplit := List.takeWhile_append_dropWhile (p := notEol) (l := rest)
    exact List.append_cancel_right (happend.trans hsplit.symm)
  rw [stringRule, many1, bind_taken hone, bind_taken htaken, hline,
    List.takeWhile_cons_of_pos ht, List.dropWhile_cons_of_pos ht]
  rfl

/-- The comment at a place. -/
def commentAtMarker (input : List Position) : ℕ × String :=
  commentOf (input.takeWhile notEol)

theorem item_of_nextMarker {input : List Position} (hascii : Ascii input) :
    (nextMarker input = [] → item input = none) ∧
      (nextMarker input ≠ [] → item input =
        some (commentAtMarker (nextMarker input), (nextMarker input).dropWhile notEol)) := by
  have hblank : Ascii (input.dropWhile isBlank) := hascii.suffix (List.dropWhile_suffix _)
  have ⟨padding, hpadding⟩ := paddedQuotedString_taken hblank
  rw [afterPadded_dropWhile] at hpadding
  have hpadded : Ascii ((afterPadded input).dropWhile isBlank) :=
    (hascii.suffix (suffix_afterPadded input)).suffix (List.dropWhile_suffix _)
  have ⟨white, hwhite, _⟩ := many_difference marker hpadded
  have hmarkers : (fun s => (marker s).isSome) = isMarker := funext isSome_marker
  rw [hmarkers, seek_dropWhile fun t rest ht => isMarker_of_blank ht rest] at hwhite
  have hrun : item input = commentRule ((nextMarker input).dropWhile isBlank) := by
    rw [item, bind_taken (run_skipBlank _), bind_taken hpadding, bind_taken (run_skipBlank _),
      whitespaceRule, bind_taken hwhite, bind_taken (run_skipBlank _)]
    rfl
  rw [hrun]
  constructor
  · intro hnil
    rw [hnil]
    rfl
  · intro hne
    obtain ⟨t, rest, hmarker⟩ := List.exists_cons_of_ne_nil hne
    have hstart := isMarker_nextMarker hne
    have hplace := hascii.suffix (suffix_nextMarker input)
    rw [hmarker] at hstart hplace ⊢
    have ⟨hline, hblank⟩ := notEol_of_isMarker hstart
    rw [List.dropWhile_cons_of_neg (by simp [hblank]), commentRule, run_map,
      stringRule_taken hplace hline]
    rfl

/-! ## The list -/

theorem suffix_afterEol (input : List Position) : afterEol input <:+ input := by
  match input with
  | [] => exact List.suffix_refl _
  | [t] => exact List.suffix_cons t []
  | t :: u :: rest =>
      have hrest : u :: rest <:+ t :: u :: rest := List.suffix_cons t (u :: rest)
      rw [afterEol]
      split
      · exact (List.suffix_cons u rest).trans hrest
      · exact hrest

theorem run_eol {t : Position} (ht : isEol t.1 = true) (rest : List Position) :
    eol (t :: rest) = some ((), afterEol (t :: rest)) := by
  rw [eol, run_orElse, run_bind, literal_cons, literal_cons]
  by_cases hreturn : t.1 = '\r'
  · rw [if_pos hreturn]
    cases rest with
    | nil => rfl
    | cons u rest =>
        change (orDefault (literal '\n') () (u :: rest)).or _ = _
        rw [orDefault, run_orElse, literal_cons, afterEol]
        by_cases hnewline : u.1 = '\n' <;> simp [hreturn, hnewline]
  · have hnewline : t.1 = '\n' := by
      simpa [isEol, hreturn] using ht
    rw [if_neg hreturn, if_pos hnewline]
    cases rest with
    | nil => rfl
    | cons u rest => simp [afterEol, hreturn]

theorem notEol_of_isBlank {t : Position} (ht : isBlank t = true) : notEol t = true := by
  unfold isBlank at ht
  rw [Bool.or_eq_true, decide_eq_true_eq, decide_eq_true_eq] at ht
  rcases ht with h | h <;> simp [notEol, isEol, h]

/-- The separator is the end of the line where a comment ended, unless the text ends there. -/
theorem separator_dropWhile (input : List Position) :
    separator (input.dropWhile notEol) =
      if input.dropWhile notEol = [] then none
      else some ((), afterEol (input.dropWhile notEol)) := by
  cases hline : input.dropWhile notEol with
  | nil => rfl
  | cons t rest =>
      have hends : notEol t = false := by
        have h := List.head?_dropWhile_not notEol input
        rw [hline] at h
        simpa using h
      have heol : isEol t.1 = true := by simpa [notEol] using hends
      have hblank : isBlank t ≠ true := by
        intro h
        rw [notEol_of_isBlank h] at hends
        cases hends
      rw [separator, bind_taken (run_skipBlank _), List.dropWhile_cons_of_neg hblank, run_eol heol,
        if_neg (List.cons_ne_nil t rest)]

/-- Where the next item begins, behind the comment at a place. -/
def nextLine (place : List Position) : List Position :=
  afterEol (place.dropWhile notEol)

theorem suffix_nextLine (place : List Position) : nextLine place <:+ place :=
  (suffix_afterEol _).trans (List.dropWhile_suffix notEol)

theorem length_nextLine_lt {place : List Position} (hne : place ≠ []) :
    (nextLine place).length < place.length := by
  have hsuffix := List.dropWhile_suffix notEol (l := place)
  unfold nextLine
  cases hline : place.dropWhile notEol with
  | nil => exact List.length_pos_iff.2 hne
  | cons t rest =>
      have hshort : (afterEol (t :: rest)).length < (t :: rest).length := by
        cases rest with
        | nil => exact Nat.zero_lt_one
        | cons u rest =>
            rw [afterEol]
            split <;> simp
      rw [hline] at hsuffix
      exact Nat.lt_of_lt_of_le hshort hsuffix.length_le

/-- The places of the comments that the grammar finds. -/
def foundPlaces (input : List Position) : List (List Position) :=
  if _h : nextMarker input = [] then []
  else nextMarker input :: foundPlaces (nextLine (nextMarker input))
termination_by input.length
decreasing_by
  exact Nat.lt_of_lt_of_le (length_nextLine_lt _h) (suffix_nextMarker input).length_le

theorem nextMarker_nil : nextMarker [] = [] := by
  have h := suffix_nextMarker []
  exact List.suffix_nil.1 h

theorem consumes_item : Consumes (separator >>= fun _ => item) := by
  have heol : Consumes eol :=
    ((consumes_literal '\r').bind fun _ =>
      (consumes_literal '\n').shrinks.orElse (Shrinks.pure ())).orElse (consumes_literal '\n')
  have hblank : Shrinks skipBlank := shrinks_skipWhile _
  have hpadded : Shrinks paddedQuotedStringRule :=
    (consumes_difference _).shrinks.many.bind fun _ => consumes_stringPadding.shrinks.many
  have hstring : Shrinks stringRule :=
    (consumes_difference _).shrinks.bind fun _ =>
      (consumes_difference _).shrinks.many.bind fun _ => Shrinks.pure _
  have hitem : Shrinks item :=
    hblank.bind fun _ => hpadded.bind fun _ => hblank.bind fun _ =>
      (consumes_difference marker).shrinks.many.bind fun _ => hblank.bind fun _ =>
        hstring.map commentOf
  exact (Consumes.after hblank fun _ => heol).bind fun _ => hitem

/-- Behind a comment the list goes on with the next place that is found. -/
theorem many_item {place : List Position} (hascii : Ascii place) :
    ∃ rest, many (separator >>= fun _ => item) (place.dropWhile notEol) =
      some ((foundPlaces (nextLine place)).map commentAtMarker, rest) := by
  induction hlength : place.length using Nat.strong_induction_on generalizing place with
  | _ length ih =>
      have hseparator := separator_dropWhile place
      have hnext : Ascii (nextLine place) := hascii.suffix (suffix_nextLine place)
      have hitem := item_of_nextMarker hnext
      by_cases hend : place.dropWhile notEol = []
      · have hline : nextLine place = [] := by rw [nextLine, hend]; rfl
        rw [if_pos hend] at hseparator
        rw [hline, foundPlaces, dif_pos nextMarker_nil]
        exact ⟨_, many_stop (bind_failed hseparator _)⟩
      · rw [if_neg hend] at hseparator
        have hstep : (separator >>= fun _ => item) (place.dropWhile notEol) =
            item (nextLine place) := bind_taken hseparator _
        by_cases hnone : nextMarker (nextLine place) = []
        · rw [foundPlaces, dif_pos hnone]
          exact ⟨_, many_stop (hstep.trans (hitem.1 hnone))⟩
        · have hplace : place ≠ [] := by
            intro h
            exact hend (by rw [h]; rfl)
          have hle := (suffix_nextMarker (nextLine place)).length_le
          have hlt := length_nextLine_lt hplace
          have hmarker : Ascii (nextMarker (nextLine place)) :=
            hnext.suffix (suffix_nextMarker _)
          have ⟨rest, hrest⟩ := ih _ (by omega) hmarker rfl
          rw [foundPlaces, dif_neg hnone, List.map_cons]
          exact ⟨rest, many_next consumes_item (hstep.trans (hitem.2 hnone)) hrest⟩

/-- The grammar fails exactly where it finds no place, and returns the comments at the places
that it finds. -/
theorem commentsRule_of_foundPlaces {input : List Position} (hascii : Ascii input) :
    (commentsRule input).map Prod.fst =
      if foundPlaces input = [] then none
      else some ((foundPlaces input).map commentAtMarker) := by
  have ⟨hnone, hsome⟩ := item_of_nextMarker hascii
  by_cases hmarker : nextMarker input = []
  · rw [foundPlaces, dif_pos hmarker, if_pos rfl, commentsRule, sepBy1,
      bind_failed (hnone hmarker)]
    rfl
  · have hplace : Ascii (nextMarker input) := hascii.suffix (suffix_nextMarker input)
    have ⟨rest, hrest⟩ := many_item hplace
    rw [foundPlaces, dif_neg hmarker, if_neg (List.cons_ne_nil _ _), commentsRule, sepBy1,
      bind_taken (hsome hmarker), bind_taken hrest]
    rfl

end FhiclComments

end ArtdaqDatabase
