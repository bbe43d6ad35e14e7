import ArtdaqDatabase.JsonReader

/-!
# The words of JSON text

Which words the lexical rules of the reader take: the raw text of a string, the
numerals, and the marks between them.  Every rule is related to a language in
both directions, since a match may have to be shown both possible and impossible.
-/

namespace ArtdaqDatabase

open Scanner
open scoped Computability

/-! ## Raw text -/

/-- Every quote belongs to an escape pair, and so does a final backslash. -/
def isRawText : List Char → Bool
  | [] => true
  | [c] => c ≠ '\\' && c ≠ '"'
  | c :: d :: text =>
      if c = '\\' then
        if d ∈ escapeCodes then isRawText text else isRawText (d :: text)
      else
        c ≠ '"' && isRawText (d :: text)

theorem isRawText_plain {c : Char} (hslash : c ≠ '\\') (hquote : c ≠ '"') (text : List Char) :
    isRawText (c :: text) = isRawText text := by
  cases text with
  | nil => simp [isRawText, hslash, hquote]
  | cons d text => simp [isRawText, hslash, hquote]

theorem isRawText_pair {d : Char} (hd : d ∈ escapeCodes) (text : List Char) :
    isRawText ('\\' :: d :: text) = isRawText text := by
  simp [isRawText, hd]

theorem escapeRule_pair {d : Char} (hd : d ∈ escapeCodes) (text : List Char) :
    escapeRule ('\\' :: d :: text) = some (['\\', d], text) := by
  have hcode : satisfy (fun c => decide (c ∈ escapeCodes)) (d :: text) = some (d, text) := by
    rw [satisfy_cons, if_pos (decide_eq_true hd)]
  unfold escapeRule
  rw [bind_taken (show char '\\' ('\\' :: d :: text) = some ('\\', d :: text) from rfl),
    bind_taken hcode]
  rfl

theorem escapeRule_eq_none
    {c : Char} {text : List Char} (h : c = '\\' → ∀ d ∈ text.head?, d ∉ escapeCodes) :
    escapeRule (c :: text) = none := by
  unfold escapeRule
  by_cases hc : c = '\\'
  · have hcode : satisfy (fun c => decide (c ∈ escapeCodes)) text = none := by
      cases text with
      | nil => rfl
      | cons d text =>
          rw [satisfy_cons, if_neg]
          simpa using h hc d rfl
    rw [hc, bind_taken (show char '\\' ('\\' :: text) = some ('\\', text) from rfl),
      bind_failed hcode]
  · apply bind_failed
    simp [char, satisfy_cons, hc]

theorem textPiece_pair {d : Char} (hd : d ∈ escapeCodes) (text : List Char) :
    textPiece ('\\' :: d :: text) = some (['\\', d], text) :=
  orElse_taken (escapeRule_pair hd text) _

theorem textPiece_single
    {c : Char} {text : List Char}
    (hc : c ≠ '"') (h : c = '\\' → ∀ d ∈ text.head?, d ∉ escapeCodes) :
    textPiece (c :: text) = some ([c], text) := by
  unfold textPiece
  rw [orElse_failed (escapeRule_eq_none h), run_map, satisfy_cons, if_pos (decide_eq_true hc)]
  rfl

theorem textPiece_quote (text : List Char) : textPiece ('"' :: text) = none := by
  unfold textPiece
  rw [orElse_failed (escapeRule_eq_none fun h => absurd h (by decide)), run_map]
  rfl

theorem consumes_textPiece : Consumes textPiece :=
  Consumes.orElse
    ((consumes_satisfy _).bind fun _ => (consumes_satisfy _).shrinks.bind fun _ => Shrinks.pure _)
    ((consumes_satisfy _).map _)

/-- The pieces of a raw text end at the closing quote. -/
theorem many_textPiece_of_raw
    {text : List Char} (htext : isRawText text = true) (rest : List Char) :
    ∃ pieces, many textPiece (text ++ '"' :: rest) = some (pieces, '"' :: rest) ∧
      pieces.flatten = text := by
  fun_induction isRawText text with
  | case1 => exact ⟨[], many_stop (textPiece_quote rest), rfl⟩
  | case2 c =>
      obtain ⟨hslash, hquote⟩ : c ≠ '\\' ∧ c ≠ '"' := by
        simpa using htext
      have hpiece : textPiece (c :: '"' :: rest) = _ :=
        textPiece_single hquote fun h => absurd h hslash
      exact ⟨[[c]], many_next consumes_textPiece hpiece (many_stop (textPiece_quote rest)), rfl⟩
  | case3 d text hd ih =>
      obtain ⟨pieces, hrun, hflat⟩ := ih htext
      exact ⟨['\\', d] :: pieces, many_next consumes_textPiece (textPiece_pair hd _) hrun,
        by simp [hflat]⟩
  | case4 d text hd ih =>
      obtain ⟨pieces, hrun, hflat⟩ := ih htext
      have hpiece : textPiece ('\\' :: (d :: text ++ '"' :: rest)) =
          some (['\\'], d :: text ++ '"' :: rest) :=
        textPiece_single (by decide) (by simpa using hd)
      exact ⟨['\\'] :: pieces, many_next consumes_textPiece hpiece hrun, by simp [hflat]⟩
  | case5 c d text hslash ih =>
      obtain ⟨hquote, hraw⟩ : c ≠ '"' ∧ isRawText (d :: text) = true := by
        simpa using htext
      obtain ⟨pieces, hrun, hflat⟩ := ih hraw
      have hpiece : textPiece (c :: (d :: text ++ '"' :: rest)) = _ :=
        textPiece_single hquote fun h => absurd h hslash
      exact ⟨[c] :: pieces, many_next consumes_textPiece hpiece hrun, by simp [hflat]⟩

theorem isRawText_single
    {c d : Char} {text raw rest : List Char} (hc : c ≠ '"')
    (hd : c = '\\' → d ∉ escapeCodes) (h : raw ++ '"' :: rest = d :: text)
    (hraw : isRawText raw = true) : isRawText (c :: raw) = true := by
  cases raw with
  | nil =>
      obtain ⟨rfl, -⟩ := List.cons.inj h
      have hslash : c ≠ '\\' := fun hc => hd hc (by decide)
      simp [isRawText, hc, hslash]
  | cons e raw =>
      obtain ⟨rfl, -⟩ := List.cons.inj h
      by_cases hslash : c = '\\'
      · simpa [isRawText, hslash, hd hslash] using hraw
      · simpa [isRawText, hslash, hc] using hraw

theorem raw_of_quote
    {text rest : List Char} {pieces : List (List Char)}
    (h : many textPiece ('"' :: text) = some (pieces, '"' :: rest)) :
    pieces.flatten ++ '"' :: rest = '"' :: text ∧ isRawText pieces.flatten = true := by
  cases (many_stop (textPiece_quote text)).symm.trans h
  exact ⟨rfl, rfl⟩

/-- What the pieces take before a quote is raw. -/
theorem raw_of_many_textPiece
    {input rest : List Char} {pieces : List (List Char)}
    (h : many textPiece input = some (pieces, '"' :: rest)) :
    pieces.flatten ++ '"' :: rest = input ∧ isRawText pieces.flatten = true := by
  have hnone : many textPiece [] = some ([], []) := many_stop consumes_textPiece.nil
  fun_induction isRawText input generalizing pieces with
  | case1 => cases hnone.symm.trans h
  | case2 c =>
      by_cases hquote : c = '"'
      · rw [hquote] at h ⊢
        exact raw_of_quote h
      · have hpiece : textPiece [c] = _ := textPiece_single hquote (by simp)
        cases (many_next consumes_textPiece hpiece hnone).symm.trans h
  | case3 d text hd ih =>
      obtain ⟨tail, rfl, htail⟩ := many_split consumes_textPiece (textPiece_pair hd text) h
      obtain ⟨happend, hraw⟩ := ih htail
      exact ⟨by simp [happend], by simpa [isRawText, hd] using hraw⟩
  | case4 d text hd ih =>
      have hpiece : textPiece ('\\' :: d :: text) = _ :=
        textPiece_single (by decide) (by simpa using hd)
      obtain ⟨tail, rfl, htail⟩ := many_split consumes_textPiece hpiece h
      obtain ⟨happend, hraw⟩ := ih htail
      exact ⟨by simp [happend],
        isRawText_single (by decide) (fun _ => hd) happend hraw⟩
  | case5 c d text hslash ih =>
      by_cases hquote : c = '"'
      · rw [hquote] at h ⊢
        exact raw_of_quote h
      · have hpiece : textPiece (c :: d :: text) = _ :=
          textPiece_single hquote fun h => absurd h hslash
        obtain ⟨tail, rfl, htail⟩ := many_split consumes_textPiece hpiece h
        obtain ⟨happend, hraw⟩ := ih htail
        exact ⟨by simp [happend],
          isRawText_single hquote (fun h => absurd h hslash) happend hraw⟩

/-- The texts of `quoted_string` join up to its pieces. -/
theorem many_textString
    {input rest : List Char} {pieces : List (List Char)}
    (h : many textPiece input = some (pieces, rest)) :
    ∃ texts, many textString input = some (texts, rest) ∧ texts.flatten = pieces.flatten := by
  unfold textString
  rw [many_map, many_many1 consumes_textPiece h]
  refine ⟨_, rfl, ?_⟩
  cases pieces <;> simp

/-! ## Marks -/

/-- The next character, blanks aside, is one of these. -/
def Next (marks : List Char) (input : List Char) : Prop :=
  ∃ c ∈ marks, (input.dropWhile isSpace).head? = some c

theorem dropWhile_blanks
    {blanks : List Char} (hblanks : ∀ c ∈ blanks, isSpace c = true) (rest : List Char) :
    (blanks ++ rest).dropWhile isSpace = rest.dropWhile isSpace :=
  List.dropWhile_append_of_pos hblanks

theorem next_blanks
    {blanks : List Char} (hblanks : ∀ c ∈ blanks, isSpace c = true)
    (marks rest : List Char) : Next marks (blanks ++ rest) ↔ Next marks rest := by
  unfold Next
  rw [dropWhile_blanks hblanks]

theorem next_cons {c : Char} (hc : isSpace c = false) (marks rest : List Char) :
    Next marks (c :: rest) ↔ c ∈ marks := by
  simp [Next, hc]

theorem Next.mono
    {marks marks' input : List Char} (h : Next marks input) (hsub : marks ⊆ marks') :
    Next marks' input := by
  obtain ⟨c, hc, hhead⟩ := h
  exact ⟨c, hsub hc, hhead⟩

theorem Next.unique {c d : Char} {input : List Char} (h : Next [c] input) (h' : Next [d] input) :
    c = d := by
  obtain ⟨_, hc, hhead⟩ := h
  obtain ⟨_, hd, hhead'⟩ := h'
  rw [List.mem_singleton.1 hc] at hhead
  rw [List.mem_singleton.1 hd] at hhead'
  exact Option.some.inj (hhead.symm.trans hhead')

theorem run_skip (input : List Char) : skip input = some ((), input.dropWhile isSpace) :=
  rfl

theorem lit_eq_some {c d : Char} {input rest : List Char} :
    lit c input = some (d, rest) ↔ input.dropWhile isSpace = c :: rest ∧ d = c := by
  unfold lit
  rw [bind_taken (run_skip input), char, satisfy_eq_some]
  constructor
  · rintro ⟨h, hd⟩
    have hdc : d = c := of_decide_eq_true hd
    exact ⟨by rw [h, hdc], hdc⟩
  · rintro ⟨h, rfl⟩
    exact ⟨h, decide_eq_true rfl⟩

theorem takes_lit
    {c : Char} (hc : isSpace c = false) {blanks : List Char}
    (hblanks : ∀ b ∈ blanks, isSpace b = true) (follow : List Char → Prop) :
    Takes (lit c) (blanks ++ [c]) c follow := by
  intro rest _
  rw [lit_eq_some, List.append_assoc, dropWhile_blanks hblanks]
  simp [hc]

theorem lit_head {c : Char} (hc : isSpace c = false) (rest : List Char) :
    lit c (c :: rest) = some (c, rest) :=
  lit_eq_some.2 ⟨by simp [hc], rfl⟩

theorem lit_fails
    {c : Char} {marks input : List Char} (h : Next marks input) (hc : c ∉ marks) :
    lit c input = none := by
  cases hx : lit c input with
  | none => rfl
  | some x =>
      obtain ⟨d, hd, hhead⟩ := h
      rw [(lit_eq_some.1 hx).1] at hhead
      cases hhead
      exact absurd hd hc

theorem consumes_lit (c : Char) : Consumes (lit c) :=
  Consumes.after (shrinks_skipWhile _) fun _ => consumes_satisfy _

/-! ## Strings -/

theorem takes_quotedString
    {blanks text : List Char} (hblanks : ∀ c ∈ blanks, isSpace c = true)
    (htext : isRawText text = true) (follow : List Char → Prop) :
    Takes quotedString (blanks ++ ['"'] ++ (text ++ ['"'])) (String.ofList text) follow := by
  intro rest _
  obtain ⟨pieces, hrun, hflat⟩ := many_textPiece_of_raw htext rest
  obtain ⟨texts, htexts, hjoin⟩ := many_textString hrun
  have hlit := takes_lit (c := '"') (by decide) hblanks (fun _ => True)
    (text ++ ['"'] ++ rest) trivial
  unfold quotedString
  rw [List.append_assoc (blanks ++ ['"']), bind_taken hlit, List.append_assoc text]
  rw [bind_taken (show many textString (text ++ (['"'] ++ rest)) = _ from htexts)]
  rw [bind_taken (show char '"' ('"' :: rest) = some ('"', rest) from rfl)]
  rw [hjoin, hflat]
  rfl

theorem quotedString_eq_some
    {input rest : List Char} {s : String} (h : quotedString input = some (s, rest)) :
    ∃ text, input.dropWhile isSpace = '"' :: text ++ '"' :: rest ∧ isRawText text = true ∧
      s = String.ofList text := by
  obtain ⟨c, inner, hlit, h⟩ := bind_eq_some.1 h
  obtain ⟨texts, stop, htexts, h⟩ := bind_eq_some.1 h
  obtain ⟨d, rest', hclose, h⟩ := bind_eq_some.1 h
  cases h
  obtain ⟨rfl, hd⟩ := satisfy_eq_some.1 hclose
  have hquote : d = '"' := of_decide_eq_true hd
  obtain ⟨pieces, stop', hpieces⟩ : ∃ pieces stop', many textPiece inner = some (pieces, stop') :=
    ⟨_, _, rfl⟩
  obtain ⟨texts', htexts', hjoin⟩ := many_textString hpieces
  cases htexts.symm.trans htexts'
  rw [hquote] at hpieces
  obtain ⟨happend, hraw⟩ := raw_of_many_textPiece hpieces
  refine ⟨pieces.flatten, ?_, hraw, by rw [hjoin]⟩
  rw [(lit_eq_some.1 hlit).1, List.cons_append, happend]

end ArtdaqDatabase
