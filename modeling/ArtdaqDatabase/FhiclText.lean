import ArtdaqDatabase.JsonText

/-!
# Texts in the two formats

The helpers that carry a text between FHiCL and JSON: the escapes of a JSON
string, quotation marks, and comments.  Writing the escapes of a text and reading
them back is the identity; reading them from a text that was never escaped is the
identity exactly when it has no backslash.
-/

namespace ArtdaqDatabase

/-! ## Escapes -/

def escapeChar (c : Char) : List Char :=
  if c = '"' then ['\\', '"']
  else if c = '\\' then ['\\', '\\']
  else if c = '\x08' then ['\\', 'b']
  else if c = '\x0c' then ['\\', 'f']
  else if c = '\n' then ['\\', 'n']
  else if c = '\r' then ['\\', 'r']
  else if c = '\t' then ['\\', 't']
  else [c]

/-- What `from_json_string` prints for the character after a backslash. -/
def restoredChar (c : Char) : List Char :=
  if c = '\\' then ['\\']
  else if c = '"' then ['"']
  else if c = 'b' then ['\x08']
  else if c = 'f' then ['\x0c']
  else if c = 'n' then ['\n']
  else if c = 'r' then ['\r']
  else if c = 't' then ['\t']
  else []

def escapeText (text : List Char) : List Char :=
  text.flatMap escapeChar

def restoreText : List Char → List Char
  | [] => []
  | [c] => if c = '\\' then [] else [c]
  | c :: d :: rest =>
      if c = '\\' then restoredChar d ++ restoreText rest else c :: restoreText (d :: rest)

/-- `to_json_string`. -/
def toJsonString (text : String) : String :=
  String.ofList (escapeText text.toList)

/-- `from_json_string`. -/
def fromJsonString (text : String) : String :=
  String.ofList (restoreText text.toList)

theorem escapeChar_cases (c : Char) :
    (c ≠ '\\' ∧ c ≠ '"' ∧ escapeChar c = [c]) ∨
      ∃ d ∈ escapeCodes, isSpace d = false ∧ escapeChar c = ['\\', d] := by
  unfold escapeChar
  split_ifs with h1 h2 h3 h4 h5 h6 h7
  · exact Or.inr ⟨'"', by decide, by decide, rfl⟩
  · exact Or.inr ⟨'\\', by decide, by decide, rfl⟩
  · exact Or.inr ⟨'b', by decide, by decide, rfl⟩
  · exact Or.inr ⟨'f', by decide, by decide, rfl⟩
  · exact Or.inr ⟨'n', by decide, by decide, rfl⟩
  · exact Or.inr ⟨'r', by decide, by decide, rfl⟩
  · exact Or.inr ⟨'t', by decide, by decide, rfl⟩
  · exact Or.inl ⟨h2, h1, rfl⟩

/-- An escaped text is the raw text of a JSON string. -/
theorem isRawText_escapeText (text : List Char) : isRawText (escapeText text) = true := by
  induction text with
  | nil => rfl
  | cons c text ih =>
      rw [escapeText, List.flatMap_cons, ← escapeText]
      rcases escapeChar_cases c with ⟨hslash, hquote, hchar⟩ | ⟨d, hd, -, hchar⟩
      · rw [hchar, List.singleton_append, isRawText_plain hslash hquote, ih]
      · rw [hchar, List.cons_append, List.singleton_append, isRawText_pair hd, ih]

theorem isRawText_toJsonString (text : String) :
    isRawText (toJsonString text).toList = true := by
  rw [toJsonString, String.toList_ofList, isRawText_escapeText]

theorem restoreText_cons {c : Char} (hc : c ≠ '\\') (rest : List Char) :
    restoreText (c :: rest) = c :: restoreText rest := by
  cases rest <;> simp [restoreText, hc]

theorem restoreText_escapeChar (c : Char) (rest : List Char) :
    restoreText (escapeChar c ++ rest) = c :: restoreText rest := by
  unfold escapeChar
  split_ifs with h1 h2 h3 h4 h5 h6 h7
  all_goals try (subst c; simp [restoreText, restoredChar])
  exact restoreText_cons h2 rest

theorem restoreText_escapeText (text : List Char) :
    restoreText (escapeText text) = text := by
  induction text with
  | nil => rfl
  | cons c text ih =>
      have h := restoreText_escapeChar c (escapeText text)
      rw [escapeText, List.flatMap_cons, ← escapeText, h, ih]

theorem fromJsonString_toJsonString (text : String) :
    fromJsonString (toJsonString text) = text := by
  simp [fromJsonString, toJsonString, restoreText_escapeText]

theorem toJsonString_empty : toJsonString "" = "" := rfl

theorem length_restoredChar (c : Char) : (restoredChar c).length ≤ 1 := by
  unfold restoredChar
  split_ifs <;> simp

theorem length_restoreText (text : List Char) : (restoreText text).length ≤ text.length := by
  fun_induction restoreText text with
  | case1 => simp
  | case2 => simp
  | case3 => simp
  | case4 d rest ih =>
      have := length_restoredChar d
      simp
      omega
  | case5 c d rest hc ih => simpa using ih

theorem restoreText_eq_self_iff (text : List Char) :
    restoreText text = text ↔ '\\' ∉ text := by
  fun_induction restoreText text with
  | case1 => simp
  | case2 => simp
  | case3 c hc => simp [Ne.symm hc]
  | case4 d rest ih =>
      have hchar := length_restoredChar d
      have hrest := length_restoreText rest
      constructor
      · intro h
        have := congrArg List.length h
        simp at this
        omega
      · simp
  | case5 c d rest hc ih =>
      rw [List.cons.injEq, List.mem_cons, not_or]
      simp [ih, Ne.symm hc]

/-- A quotation mark in front of the restored text moves every leading mark by one. -/
theorem restoreText_quoted_ne (text tail : List Char) :
    '"' :: (restoreText text ++ tail) ≠ text := by
  induction text with
  | nil => simp
  | cons c text ih =>
      intro h
      rw [List.cons.injEq] at h
      obtain ⟨hc, h⟩ := h
      subst hc
      rw [restoreText_cons (by decide), List.cons_append] at h
      exact ih h

/-! ## Quotation marks -/

inductive QuotationType where
  | none
  | single
  | double
  deriving DecidableEq

def isQuotedWith (q : Char) (text : List Char) : Bool :=
  text.head? = some q && text.getLast? = some q

/-- `quotation_type`. -/
def quotationType (text : String) : QuotationType :=
  if isQuotedWith '"' text.toList then .double
  else if isQuotedWith '\'' text.toList then .single
  else .none

def dequote (text : String) : String :=
  if isQuotedWith '"' text.toList || isQuotedWith '\'' text.toList then
    String.ofList text.toList.tail.dropLast
  else text

def quoted_ (text : String) (qchar : Char) : String :=
  String.ofList (qchar :: text.toList ++ [qchar])

/-- A string under the marks that its type stands for. -/
def QuotationType.quote : QuotationType → String → String
  | .none, text => text
  | .single, text => quoted_ text '\''
  | .double, text => quoted_ text '"'

theorem isQuotedWith_eq_true {q : Char} {text : List Char} :
    isQuotedWith q text = true ↔ text = [q] ∨ ∃ inner, text = q :: inner ++ [q] := by
  unfold isQuotedWith
  cases text with
  | nil => simp
  | cons c text =>
      rcases List.eq_nil_or_concat text with rfl | ⟨inner, d, rfl⟩
      · simp
      · have hlast : (c :: (inner ++ [d])).getLast? = some d := by
          rw [← List.cons_append, List.getLast?_append]
          simp
        simp only [List.concat_eq_append, hlast]
        simp

/-- A string that is not a single mark gets its marks back. -/
theorem quote_dequote (text : String) :
    (quotationType text).quote (dequote text) = text ↔
      text.toList ≠ ['"'] ∧ text.toList ≠ ['\''] := by
  unfold quotationType dequote
  have hback : ∀ list : List Char, String.ofList list = text ↔ list = text.toList := by
    intro list
    rw [← String.toList_inj, String.toList_ofList]
  by_cases hdouble : isQuotedWith '"' text.toList
  · rw [if_pos hdouble, if_pos (by simp [hdouble])]
    simp only [QuotationType.quote, quoted_, String.toList_ofList, hback]
    rcases isQuotedWith_eq_true.1 hdouble with h | ⟨inner, h⟩ <;> simp [h]
  · rw [if_neg hdouble]
    by_cases hsingle : isQuotedWith '\'' text.toList
    · rw [if_pos hsingle, if_pos (by simp [hsingle])]
      simp only [QuotationType.quote, quoted_, String.toList_ofList, hback]
      rcases isQuotedWith_eq_true.1 hsingle with h | ⟨inner, h⟩ <;> simp [h]
    · rw [if_neg hsingle, if_neg (by simp [hdouble, hsingle])]
      have h1 : text.toList ≠ ['"'] := fun h => hdouble (isQuotedWith_eq_true.2 (Or.inl h))
      have h2 : text.toList ≠ ['\''] := fun h => hsingle (isQuotedWith_eq_true.2 (Or.inl h))
      simp [QuotationType.quote, h1, h2]

/-! ## Guessed marks -/

def quoteMarks : List Char :=
  [' ', '.', '%', '(', ')', '/', '-', '\\']

/-- `need_quotes`. -/
def needQuotes (text : String) : Bool :=
  text.toList.any fun c => c ∈ quoteMarks

/-- The text of a value whose marks are guessed from the text itself. -/
def guessQuotes (text : String) : String :=
  if needQuotes text then quoted_ text '"' else text

/-- The guess leaves a text alone that has none of the marks. -/
theorem guessQuotes_restored (text : String) :
    guessQuotes (fromJsonString text) = text ↔ needQuotes text = false := by
  have htext : fromJsonString text = text ↔ '\\' ∉ text.toList := by
    rw [← restoreText_eq_self_iff, fromJsonString, ← String.toList_inj, String.toList_ofList]
  have hneed : needQuotes text = false → '\\' ∉ text.toList := by
    intro h hmem
    rw [needQuotes, List.any_eq_false] at h
    exact h _ hmem (by decide)
  unfold guessQuotes
  split
  · rename_i hrestored
    constructor
    · intro h
      rw [← String.toList_inj, quoted_, String.toList_ofList, fromJsonString,
        String.toList_ofList, List.cons_append] at h
      exact absurd h (restoreText_quoted_ne _ _)
    · intro h
      rw [htext.2 (hneed h)] at hrestored
      rw [h] at hrestored
      exact absurd hrestored (by simp)
  · rename_i hrestored
    constructor
    · intro h
      rw [h] at hrestored
      simpa using hrestored
    · exact fun h => htext.2 (hneed h)

/-! ## Annotations -/

/-- `trim`. -/
def trim (text : String) : String :=
  String.ofList ((text.toList.dropWhile isSpace).reverse.dropWhile isSpace).reverse

/-- `annotate`: an annotation starts with a hash sign. -/
def annotate (text : String) : String :=
  let str := trim text
  if str.toList.head? = some '#' then str
  else if str = "" then ""
  else "#" ++ str

/-- The blanks that are written without an escape. -/
def isPlainSpace (c : Char) : Bool :=
  (escapeChar c).all isSpace

theorem dropWhile_escapeText (text : List Char) :
    (escapeText text).dropWhile isSpace = escapeText (text.dropWhile isPlainSpace) := by
  induction text with
  | nil => rfl
  | cons c text ih =>
      rw [escapeText, List.flatMap_cons, ← escapeText]
      rcases escapeChar_cases c with ⟨-, -, hchar⟩ | ⟨d, -, -, hchar⟩
      · by_cases hspace : isSpace c
        · have hplain : isPlainSpace c = true := by simp [isPlainSpace, hchar, hspace]
          rw [hchar, List.singleton_append, List.dropWhile_cons_of_pos hspace,
            List.dropWhile_cons_of_pos hplain, ih]
        · have hplain : ¬isPlainSpace c = true := by simp [isPlainSpace, hchar, hspace]
          rw [hchar, List.singleton_append, List.dropWhile_cons_of_neg hspace,
            List.dropWhile_cons_of_neg hplain]
          simp [escapeText, hchar]
      · have hslash : ¬isSpace '\\' = true := by decide
        have hplain : ¬isPlainSpace c = true := by simp [isPlainSpace, hchar, hslash]
        rw [hchar, List.cons_append, List.dropWhile_cons_of_neg hslash,
          List.dropWhile_cons_of_neg hplain]
        simp [escapeText, hchar]

theorem reverse_dropWhile_escapeText (text : List Char) :
    ((escapeText text).reverse.dropWhile isSpace).reverse =
      escapeText (text.reverse.dropWhile isPlainSpace).reverse := by
  induction text using List.reverseRecOn with
  | nil => rfl
  | append_singleton text c ih =>
      have hsplit : escapeText (text ++ [c]) = escapeText text ++ escapeChar c := by
        simp [escapeText]
      rw [hsplit, List.reverse_append, List.reverse_append, List.reverse_singleton,
        List.singleton_append]
      rcases escapeChar_cases c with ⟨-, -, hchar⟩ | ⟨d, -, hd, hchar⟩
      · by_cases hspace : isSpace c
        · have hplain : isPlainSpace c = true := by simp [isPlainSpace, hchar, hspace]
          rw [hchar, List.reverse_singleton, List.singleton_append,
            List.dropWhile_cons_of_pos hspace, List.dropWhile_cons_of_pos hplain, ih]
        · have hplain : ¬isPlainSpace c = true := by simp [isPlainSpace, hchar, hspace]
          rw [hchar, List.reverse_singleton, List.singleton_append,
            List.dropWhile_cons_of_neg hspace, List.dropWhile_cons_of_neg hplain]
          simp [hsplit, hchar]
      · have hplain : ¬isPlainSpace c = true := by simp [isPlainSpace, hchar, hd]
        have hlast : ¬isSpace d = true := by simp [hd]
        have hreverse : (escapeChar c).reverse = [d, '\\'] := by
          rw [hchar]
          rfl
        rw [hreverse, List.cons_append, List.dropWhile_cons_of_neg hlast,
          List.dropWhile_cons_of_neg hplain]
        simp [hsplit, hchar]

theorem trim_toJsonString (text : String) :
    ∃ rest, trim (toJsonString text) = toJsonString rest := by
  refine ⟨String.ofList ((text.toList.dropWhile isPlainSpace).reverse.dropWhile
    isPlainSpace).reverse, ?_⟩
  rw [trim, toJsonString, String.toList_ofList, dropWhile_escapeText,
    reverse_dropWhile_escapeText, toJsonString, String.toList_ofList]

/-- An annotation that was escaped stays so. -/
theorem annotate_toJsonString (text : String) :
    ∃ rest, annotate (toJsonString text) = toJsonString rest := by
  obtain ⟨rest, hrest⟩ := trim_toJsonString text
  simp only [annotate, hrest]
  split_ifs
  · exact ⟨rest, rfl⟩
  · exact ⟨"", rfl⟩
  · refine ⟨"#" ++ rest, ?_⟩
    rw [← String.toList_inj]
    simp [toJsonString, escapeText, escapeChar]

end ArtdaqDatabase
