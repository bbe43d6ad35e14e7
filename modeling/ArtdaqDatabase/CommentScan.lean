import ArtdaqDatabase.CommentGrammar
import ArtdaqDatabase.FhiclText
import Mathlib.Data.List.TakeWhile

/-!
# The scan for comments

`FhiclReader::read_comments`, and the comments of a text by themselves: a text is read
outside quoted strings, inside one, or inside a comment, and a comment begins at a marker that
is met outside.  The scan finds the same comments except where it meets an empty string: it
then goes on to the next marker without regard to strings.
-/

namespace ArtdaqDatabase

namespace FhiclComments

open Scanner

/-! ## The scan -/

/-- `std::map::insert`: the entry of a line that is there stays. -/
def insertComment (comment : ℕ × String) : List (ℕ × String) → List (ℕ × String)
  | [] => [comment]
  | first :: rest =>
      if comment.1 < first.1 then comment :: first :: rest
      else if comment.1 = first.1 then first :: rest
      else first :: insertComment comment rest

def commentsMap (found : List (ℕ × String)) : List (ℕ × String) :=
  found.foldl (fun comments comment => insertComment comment comments) []

def positions (text : String) : List Position :=
  numbered '\x00' 1 text.toList

def commentObject (comment : ℕ × String) : Value :=
  .object [("linenum", .integer comment.1), ("value", .string (toJsonString comment.2))]

def readComments (text : String) (jsonArray : List Value) : Except Failure (List Value) := do
  confirm (text ≠ "")
  confirm jsonArray.isEmpty
  let comments :=
    match commentsRule (positions text) with
    | none => [(0, "No comments")]
    | some (found, _) => commentsMap found
  return comments.map commentObject

/-! ## Comments -/

/-- Where a text is read. -/
inductive Mode where
  | outside
  | quoted (quote : Char)
  | comment
  deriving DecidableEq

/-- Where it is read behind the first character. -/
def Mode.next : Mode → Position → List Position → Mode
  | .outside, t, rest =>
      if isMarker (t :: rest) then .comment
      else if isQuote t.1 then .quoted t.1
      else .outside
  | .quoted quote, t, _ => if t.1 = quote then .outside else .quoted quote
  | .comment, t, _ => if isEol t.1 then .outside else .comment

/-- The places outside quoted strings and comments. -/
def places : Mode → List Position → List (List Position)
  | _, [] => []
  | .outside, t :: rest => (t :: rest) :: places (Mode.outside.next t rest) rest
  | .quoted quote, t :: rest => places ((Mode.quoted quote).next t rest) rest
  | .comment, t :: rest => places (Mode.comment.next t rest) rest

/-- Every quoted string is closed. -/
def closed : Mode → List Position → Bool
  | .quoted _, [] => false
  | _, [] => true
  | mode, t :: rest => closed (mode.next t rest) rest

/-- A string without characters. -/
def isEmptyString : List Position → Bool
  | t :: u :: _ => isQuote t.1 && decide (u.1 = t.1)
  | _ => false

def commentPlaces (input : List Position) : List (List Position) :=
  (places .outside input).filter isMarker

def emptyStrings (input : List Position) : List (List Position) :=
  (places .outside input).filter isEmptyString

/-- The comments of a text: a line, and the rest of the line from the marker on. -/
def commentsOf (text : String) : List (ℕ × String) :=
  if commentPlaces (positions text) = [] then [(0, "No comments")]
  else (commentPlaces (positions text)).map commentAtMarker

/-- Behind an empty string the next marker is that of a comment. -/
def Guarded (input : List Position) : Prop :=
  ∀ empty ∈ emptyStrings input, seek isMarker empty = (commentPlaces empty).headD []

/-! ## Places and suffixes -/

theorem suffix_of_mem_places
    {mode : Mode} {input place : List Position} (h : place ∈ places mode input) :
    place <:+ input := by
  induction input generalizing mode with
  | nil => cases mode <;> cases h
  | cons t rest ih =>
      have hrest : ∀ mode, place ∈ places mode rest → place <:+ t :: rest :=
        fun mode hplace => (ih hplace).trans (List.suffix_cons t rest)
      cases mode with
      | outside =>
          rw [places] at h
          rcases List.mem_cons.1 h with rfl | h
          · exact List.suffix_refl _
          · exact hrest _ h
      | quoted quote => exact hrest _ h
      | comment => exact hrest _ h

theorem suffix_of_mem_commentPlaces
    {input place : List Position} (h : place ∈ commentPlaces input) :
    place <:+ input ∧ isMarker place = true :=
  ⟨suffix_of_mem_places (List.mem_filter.1 h).1, (List.mem_filter.1 h).2⟩

/-- A marker is not in front of the place that is found. -/
theorem suffix_seek_isMarker
    {input place : List Position} (hplace : place <:+ input) (hmarker : isMarker place = true) :
    place <:+ seek isMarker input := by
  induction input with
  | nil => exact hplace
  | cons t rest ih =>
      rw [seek]
      split
      · exact hplace
      · rename_i hnot
        rcases List.suffix_cons_iff.1 hplace with heq | hrest
        · rw [heq] at hmarker
          exact absurd hmarker hnot
        · exact ih hrest

theorem isMarker_of_seek_eq_nil
    {input place : List Position} (hseek : seek isMarker input = []) (hplace : place <:+ input) :
    isMarker place = false := by
  cases hmarker : isMarker place with
  | false => rfl
  | true =>
      have hsuffix := suffix_seek_isMarker hplace hmarker
      rw [hseek, List.suffix_nil] at hsuffix
      rw [hsuffix] at hmarker
      cases hmarker

theorem commentPlaces_of_seek_eq_nil
    {input place : List Position} (hseek : seek isMarker input = []) (hplace : place <:+ input) :
    commentPlaces place = [] := by
  apply List.filter_eq_nil_iff.2
  intro marker hmem
  have hsuffix := (suffix_of_mem_places hmem).trans hplace
  rw [isMarker_of_seek_eq_nil hseek hsuffix]
  decide

/-- Where no marker follows, nothing goes wrong. -/
theorem guarded_of_seek_eq_nil
    {input : List Position} (hseek : seek isMarker input = []) : Guarded input := by
  intro empty hmem
  have hsuffix : empty <:+ input := suffix_of_mem_places (List.mem_filter.1 hmem).1
  have hempty : seek isMarker empty = [] := by
    rcases stop_seek isMarker empty with h | h
    · exact h
    · have hplace := (suffix_seek isMarker empty).trans hsuffix
      rw [isMarker_of_seek_eq_nil hseek hplace] at h
      cases h
  rw [hempty, commentPlaces_of_seek_eq_nil hseek hsuffix]
  rfl

/-! ## What is passed over -/

/-- From either place the same comments and empty strings follow, and the same end. -/
structure SamePlaces (input later : List Position) : Prop where
  comments : commentPlaces input = commentPlaces later
  strings : emptyStrings input = emptyStrings later
  closed : closed .outside input = closed .outside later

theorem SamePlaces.trans
    {first second third : List Position} (h : SamePlaces first second)
    (h' : SamePlaces second third) : SamePlaces first third :=
  ⟨h.comments.trans h'.comments, h.strings.trans h'.strings, h.closed.trans h'.closed⟩

theorem SamePlaces.guarded
    {input later : List Position} (h : SamePlaces input later) :
    Guarded input ↔ Guarded later := by
  unfold Guarded
  rw [h.strings]

theorem closed_cons (mode : Mode) (t : Position) (rest : List Position) :
    closed mode (t :: rest) = closed (mode.next t rest) rest := by
  cases mode <;> rfl

theorem isStop_of_isEmptyString {input : List Position} (h : isEmptyString input = true) :
    isStop input = true := by
  match input with
  | [] => cases h
  | [t] => cases h
  | t :: u :: rest =>
      rw [isEmptyString, Bool.and_eq_true] at h
      simp [isStop, h.1]

/-- A character that is no quote and begins no marker is passed over. -/
theorem samePlaces_cons
    {t : Position} {rest : List Position} (hstop : isStop (t :: rest) = false) :
    SamePlaces (t :: rest) rest := by
  have hempty : isEmptyString (t :: rest) = false := by
    cases h : isEmptyString (t :: rest) with
    | false => rfl
    | true =>
        rw [isStop_of_isEmptyString h] at hstop
        cases hstop
  rw [isStop, Bool.or_eq_false_iff] at hstop
  have hmarker := hstop.1
  have hquote : isQuote t.1 = false := hstop.2
  have hnext : Mode.outside.next t rest = .outside := by
    simp [Mode.next, hmarker, hquote]
  refine ⟨?_, ?_, ?_⟩
  · rw [commentPlaces, places, hnext, List.filter_cons_of_neg (by simp [hmarker]), commentPlaces]
  · rw [emptyStrings, places, hnext, List.filter_cons_of_neg (by simp [hempty]), emptyStrings]
  · rw [closed_cons, hnext]

theorem samePlaces_seek (input : List Position) : SamePlaces input (seek isStop input) := by
  induction input with
  | nil => exact ⟨rfl, rfl, rfl⟩
  | cons t rest ih =>
      rw [seek]
      split
      · exact ⟨rfl, rfl, rfl⟩
      · rename_i h
        exact (samePlaces_cons (by simpa using h)).trans ih

/-- What follows in a quoted string follows behind its end. -/
theorem places_quoted (quote : Char) (input : List Position) :
    places (.quoted quote) input = places .outside (seek (headIs quote) input).tail ∧
      closed (.quoted quote) input =
        (!(seek (headIs quote) input).isEmpty &&
          closed .outside (seek (headIs quote) input).tail) := by
  induction input with
  | nil => exact ⟨rfl, rfl⟩
  | cons t rest ih =>
      rw [places, closed_cons, seek, headIs_cons, Mode.next]
      by_cases h : t.1 = quote <;> simp [h, ih]

theorem exists_of_quotedEnd {input after : List Position} (h : quotedEnd input = some after) :
    ∃ t rest u, input = t :: rest ∧ isQuote t.1 = true ∧ headIs t.1 rest = false ∧
      seek (headIs t.1) rest = u :: after := by
  cases input with
  | nil => cases h
  | cons t rest =>
      rw [quotedEnd] at h
      split at h
      · rename_i hquote
        unfold stringEnd at h
        split at h
        · cases h
        · rename_i hhead
          split at h
          · cases h
          · rename_i u after' hseek
            cases h
            exact ⟨t, rest, u, rfl, hquote, by simpa using hhead, hseek⟩
      · cases h

theorem isMarker_of_isQuote {t : Position} (ht : isQuote t.1 = true) (rest : List Position) :
    isMarker (t :: rest) = false := by
  rw [isQuote, Bool.or_eq_true, decide_eq_true_eq, decide_eq_true_eq] at ht
  apply isMarker_of_ne
  · intro h
    rw [h] at ht
    exact absurd ht (by decide)
  · intro h
    rw [h] at ht
    exact absurd ht (by decide)

theorem next_of_isQuote {t : Position} (ht : isQuote t.1 = true) (rest : List Position) :
    Mode.outside.next t rest = .quoted t.1 := by
  simp [Mode.next, isMarker_of_isQuote ht, ht]

/-- A string with characters is passed over. -/
theorem samePlaces_quotedEnd {input after : List Position} (h : quotedEnd input = some after) :
    SamePlaces input after := by
  have ⟨t, rest, u, hinput, hquote, hhead, hseek⟩ := exists_of_quotedEnd h
  have hempty : isEmptyString (t :: rest) = false := by
    cases rest with
    | nil => rfl
    | cons v rest =>
        rw [headIs_cons] at hhead
        rw [isEmptyString, hhead, Bool.and_false]
  have ⟨hplaces, hclosed⟩ := places_quoted t.1 rest
  rw [hseek] at hplaces hclosed
  have hmarker := isMarker_of_isQuote hquote rest
  rw [hinput]
  refine ⟨?_, ?_, ?_⟩
  · rw [commentPlaces, places, next_of_isQuote hquote, hplaces,
      List.filter_cons_of_neg (by simp [hmarker]), commentPlaces, List.tail_cons]
  · rw [emptyStrings, places, next_of_isQuote hquote, hplaces,
      List.filter_cons_of_neg (by simp [hempty]), emptyStrings, List.tail_cons]
  · rw [closed_cons, next_of_isQuote hquote, hclosed]
    rfl

theorem samePlaces_afterStrings (input : List Position) :
    SamePlaces input (afterStrings input) := by
  induction input using afterStrings.induct with
  | case1 input h =>
      rw [afterStrings_of_none h]
      exact ⟨rfl, rfl, rfl⟩
  | case2 input after h ih =>
      rw [afterStrings_of_some h]
      exact ((samePlaces_quotedEnd h).trans (samePlaces_seek after)).trans ih

theorem samePlaces_afterPadded (input : List Position) :
    SamePlaces input (afterPadded input) :=
  (samePlaces_seek input).trans (samePlaces_afterStrings _)

/-! ## Where the padding ends -/

theorem afterStrings_cases {input : List Position} (hstop : input = [] ∨ isStop input = true) :
    quotedEnd (afterStrings input) = none ∧
      (afterStrings input = [] ∨ isStop (afterStrings input) = true) := by
  induction input using afterStrings.induct with
  | case1 input h =>
      rw [afterStrings_of_none h]
      exact ⟨h, hstop⟩
  | case2 input after h ih =>
      rw [afterStrings_of_some h]
      exact ih (stop_seek isStop after)

/-- The padding ends at the end of the text, at a marker or at an empty string. -/
theorem afterPadded_cases {input : List Position} (hclosed : closed .outside input = true) :
    afterPadded input = [] ∨ isMarker (afterPadded input) = true ∨
      isEmptyString (afterPadded input) = true := by
  have hsame := samePlaces_afterPadded input
  rw [hsame.closed] at hclosed
  have ⟨hnone, hstop⟩ := afterStrings_cases (stop_seek isStop input)
  change quotedEnd (afterPadded input) = none at hnone
  change afterPadded input = [] ∨ isStop (afterPadded input) = true at hstop
  rcases hstop with hnil | hstop
  · exact Or.inl hnil
  · refine Or.inr ?_
    cases hpadded : afterPadded input with
    | nil =>
        rw [hpadded] at hstop
        cases hstop
    | cons t rest =>
        rw [hpadded] at hnone hstop hclosed
        rw [isStop, Bool.or_eq_true] at hstop
        rcases hstop with hmarker | hhead
        · exact Or.inl hmarker
        · have hquote : isQuote t.1 = true := hhead
          rw [quotedEnd, if_pos hquote] at hnone
          rw [closed_cons, next_of_isQuote hquote, (places_quoted t.1 rest).2] at hclosed
          refine Or.inr ?_
          cases rest with
          | nil => cases hclosed
          | cons u rest =>
              cases hhead : headIs t.1 (u :: rest) with
              | true =>
                  rw [isEmptyString, hquote]
                  exact hhead
              | false =>
                  rw [stringEnd, hhead, if_neg (by decide)] at hnone
                  cases hseek : seek (headIs t.1) (u :: rest) with
                  | nil =>
                      rw [hseek] at hclosed
                      cases hclosed
                  | cons v after =>
                      rw [hseek] at hnone
                      cases hnone

/-! ## Behind a comment -/

theorem isStop_of_isEol {t : Position} (ht : isEol t.1 = true) (rest : List Position) :
    isStop (t :: rest) = false := by
  rw [isEol, Bool.or_eq_true, decide_eq_true_eq, decide_eq_true_eq] at ht
  have hhash : t.1 ≠ '#' := by
    intro h
    rw [h] at ht
    exact absurd ht (by decide)
  have hslash : t.1 ≠ '/' := by
    intro h
    rw [h] at ht
    exact absurd ht (by decide)
  have hquote : isQuote t.1 = false := by
    rcases ht with h | h <;> rw [h] <;> rfl
  simp [isStop, isMarker_of_ne hhash hslash, hquote]

/-- A newline behind a return is passed over outside, too. -/
theorem samePlaces_afterEol (t : Position) (rest : List Position) :
    SamePlaces rest (afterEol (t :: rest)) := by
  cases rest with
  | nil => exact ⟨rfl, rfl, rfl⟩
  | cons u rest =>
      rw [afterEol]
      split
      · rename_i h
        have heol : isEol u.1 = true := by simp [isEol, h.2]
        exact samePlaces_cons (isStop_of_isEol heol rest)
      · exact ⟨rfl, rfl, rfl⟩

/-- What follows in a comment follows from the next line on. -/
theorem places_comment (input : List Position) :
    (places .comment input).filter isMarker = commentPlaces (nextLine input) ∧
      (places .comment input).filter isEmptyString = emptyStrings (nextLine input) ∧
        closed .comment input = closed .outside (nextLine input) := by
  induction input with
  | nil => exact ⟨rfl, rfl, rfl⟩
  | cons t rest ih =>
      rw [places, closed_cons, Mode.next, nextLine]
      cases hends : isEol t.1 with
      | true =>
          have hsame := samePlaces_afterEol t rest
          rw [if_pos rfl, List.dropWhile_cons_of_neg (by simp [notEol, hends]),
            ← hsame.comments, ← hsame.strings, ← hsame.closed]
          exact ⟨rfl, rfl, rfl⟩
      | false =>
          rw [if_neg (by decide), List.dropWhile_cons_of_pos (by simp [notEol, hends])]
          exact ih

theorem nextLine_cons {t : Position} (ht : notEol t = true) (rest : List Position) :
    nextLine (t :: rest) = nextLine rest := by
  rw [nextLine, List.dropWhile_cons_of_pos ht, nextLine]

theorem isQuote_of_isEmptyString {t : Position} {rest : List Position}
    (h : isEmptyString (t :: rest) = true) : isQuote t.1 = true := by
  cases rest with
  | nil => cases h
  | cons u rest =>
      rw [isEmptyString, Bool.and_eq_true] at h
      exact h.1

theorem isEmptyString_of_isMarker {input : List Position} (h : isMarker input = true) :
    isEmptyString input = false := by
  cases input with
  | nil => rfl
  | cons t rest =>
      cases hempty : isEmptyString (t :: rest) with
      | false => rfl
      | true =>
          rw [isMarker_of_isQuote (isQuote_of_isEmptyString hempty)] at h
          cases h

/-- At a comment: it is the first one, and the rest is as from the next line on. -/
theorem places_of_isMarker {place : List Position} (hmarker : isMarker place = true) :
    commentPlaces place = place :: commentPlaces (nextLine place) ∧
      emptyStrings place = emptyStrings (nextLine place) ∧
        closed .outside place = closed .outside (nextLine place) := by
  cases place with
  | nil => cases hmarker
  | cons t rest =>
      have hempty := isEmptyString_of_isMarker hmarker
      have hnext : Mode.outside.next t rest = .comment := by simp [Mode.next, hmarker]
      have ⟨hcomments, hstrings, hclosed⟩ := places_comment rest
      rw [nextLine_cons (notEol_of_isMarker hmarker).1, ← hcomments, ← hstrings, ← hclosed]
      refine ⟨?_, ?_, ?_⟩
      · rw [commentPlaces, places, hnext, List.filter_cons_of_pos hmarker]
      · rw [emptyStrings, places, hnext, List.filter_cons_of_neg (by simp [hempty])]
      · rw [closed_cons, hnext]

theorem guarded_of_isMarker {place : List Position} (hmarker : isMarker place = true) :
    Guarded place ↔ Guarded (nextLine place) := by
  unfold Guarded
  rw [(places_of_isMarker hmarker).2.1]

/-! ## Up to a comment -/

theorem next_ne_comment
    {mode : Mode} {t : Position} {rest : List Position} (hmode : mode ≠ .comment)
    (hmarker : isMarker (t :: rest) = false) : mode.next t rest ≠ .comment := by
  cases mode with
  | comment => exact absurd rfl hmode
  | outside =>
      rw [Mode.next, hmarker, if_neg (by decide)]
      split <;> simp
  | quoted quote =>
      rw [Mode.next]
      split <;> simp

/-- The places of a rest are shorter than what it is the rest of. -/
theorem headD_places_ne (mode : Mode) (t : Position) (rest : List Position) :
    ((places mode rest).filter isMarker).headD [] ≠ t :: rest := by
  intro h
  cases hfilter : (places mode rest).filter isMarker with
  | nil =>
      rw [hfilter] at h
      cases h
  | cons place later =>
      have hmem : place ∈ (places mode rest).filter isMarker := by
        rw [hfilter]
        exact List.mem_cons_self
      have hle := (suffix_of_mem_places (List.mem_filter.1 hmem).1).length_le
      rw [hfilter, List.headD_cons] at h
      rw [h, List.length_cons] at hle
      omega

/-- Where the next marker is that of the next comment, every place in front of it has the same
next marker and the same next comment. -/
theorem places_before
    {mode : Mode} {input : List Position} (hmode : mode ≠ .comment)
    (hne : seek isMarker input ≠ [])
    (hhead : ((places mode input).filter isMarker).headD [] = seek isMarker input) :
    ∃ before, places mode input = before ++ places .outside (seek isMarker input) ∧
      closed mode input = closed .outside (seek isMarker input) ∧
        ∀ place ∈ before, isMarker place = false ∧
          seek isMarker place = seek isMarker input ∧
            (commentPlaces place).headD [] = seek isMarker input := by
  induction input generalizing mode with
  | nil => exact absurd rfl hne
  | cons t rest ih =>
      cases hmarker : isMarker (t :: rest) with
      | true =>
          have hseek : seek isMarker (t :: rest) = t :: rest := seek_of_stop hmarker
          rw [hseek]
          cases mode with
          | outside => exact ⟨[], rfl, rfl, by simp⟩
          | comment => exact absurd rfl hmode
          | quoted quote =>
              rw [hseek] at hhead
              exact absurd hhead (headD_places_ne _ t rest)
      | false =>
          have hseek : seek isMarker (t :: rest) = seek isMarker rest := by
            rw [seek, hmarker, if_neg (by decide)]
          rw [hseek] at hne hhead ⊢
          cases mode with
          | comment => exact absurd rfl hmode
          | quoted quote =>
              rw [places] at hhead ⊢
              rw [closed_cons]
              exact ih (next_ne_comment hmode hmarker) hne hhead
          | outside =>
              have hplaces : commentPlaces (t :: rest) =
                  (places (Mode.outside.next t rest) rest).filter isMarker := by
                rw [commentPlaces, places, List.filter_cons_of_neg (by simp [hmarker])]
              have hnext := next_ne_comment hmode hmarker
              change (commentPlaces (t :: rest)).headD [] = _ at hhead
              obtain ⟨before, hsplit, hclosed, hbefore⟩ := ih hnext hne (by rw [← hplaces, hhead])
              refine ⟨(t :: rest) :: before, ?_, ?_, ?_⟩
              · rw [places, hsplit, List.cons_append]
              · rw [closed_cons, hclosed]
              · intro place hmem
                rcases List.mem_cons.1 hmem with rfl | hmem
                · exact ⟨hmarker, hseek, hhead⟩
                · exact hbefore place hmem

/-- Up to the next comment nothing is lost, if its marker is the next one. -/
theorem guarded_of_seek
    {input : List Position} (hne : seek isMarker input ≠ [])
    (hhead : (commentPlaces input).headD [] = seek isMarker input) :
    commentPlaces input = commentPlaces (seek isMarker input) ∧
      closed .outside input = closed .outside (seek isMarker input) ∧
        (Guarded input ↔ Guarded (seek isMarker input)) := by
  have ⟨before, hplaces, hclosed, hbefore⟩ := places_before (by decide) hne hhead
  have hnone : before.filter isMarker = [] := by
    apply List.filter_eq_nil_iff.2
    intro place hplace
    rw [(hbefore place hplace).1]
    decide
  refine ⟨?_, hclosed, ?_⟩
  · rw [commentPlaces, hplaces, List.filter_append, hnone, List.nil_append, commentPlaces]
  · unfold Guarded
    rw [emptyStrings, hplaces, List.filter_append, emptyStrings]
    constructor
    · intro h empty hempty
      exact h empty (List.mem_append_right _ hempty)
    · intro h empty hempty
      rcases List.mem_append.1 hempty with hempty | hempty
      · have ⟨_, hseek, hcomment⟩ := hbefore empty (List.mem_filter.1 hempty).1
        rw [hseek, hcomment]
      · exact h empty hempty

/-! ## Lines -/

/-- Behind the end of a line every character of a line has a greater number. -/
def LinesAscend (input : List Position) : Prop :=
  ∀ t rest, t :: rest <:+ input → notEol t = true →
    ∀ u ∈ rest.dropWhile notEol, notEol u = true → t.2 < u.2

theorem LinesAscend.suffix {input rest : List Position} (h : LinesAscend input)
    (hrest : rest <:+ input) : LinesAscend rest :=
  fun t later hlater => h t later (hlater.trans hrest)

theorem le_of_mem_numbered
    {prev : Char} {line : ℕ} {text : List Char} {u : Position}
    (hu : u ∈ numbered prev line text) : line ≤ u.2 := by
  induction text generalizing prev line with
  | nil => cases hu
  | cons c rest ih =>
      rw [numbered] at hu
      rcases List.mem_cons.1 hu with rfl | hu
      · exact Nat.le_refl _
      · have hle := ih hu
        split at hle <;> omega

theorem lt_of_mem_dropWhile_numbered
    {prev : Char} {line : ℕ} {text : List Char} {u : Position} (hprev : isEol prev = false)
    (hu : u ∈ (numbered prev line text).dropWhile notEol) (hends : notEol u = true) :
    line < u.2 := by
  induction text generalizing prev line with
  | nil => cases hu
  | cons c rest ih =>
      rw [isEol, Bool.or_eq_false_iff, decide_eq_false_iff_not, decide_eq_false_iff_not] at hprev
      rw [numbered] at hu
      cases hc : isEol c with
      | true =>
          have hline : endsLine prev c = true := by
            rw [isEol, Bool.or_eq_true, decide_eq_true_eq, decide_eq_true_eq] at hc
            rcases hc with h | h <;> simp [endsLine, h, hprev]
          rw [List.dropWhile_cons_of_neg (by simp [notEol, hc]), hline, if_pos rfl] at hu
          rcases List.mem_cons.1 hu with rfl | hu
          · simp [notEol, hc] at hends
          · exact le_of_mem_numbered hu
      | false =>
          have hline : endsLine prev c = false := by
            rw [isEol, Bool.or_eq_false_iff, decide_eq_false_iff_not,
              decide_eq_false_iff_not] at hc
            simp [endsLine, hc]
          rw [List.dropWhile_cons_of_pos (by simp [notEol, hc]), hline, if_neg (by decide)] at hu
          exact ih hc hu

theorem linesAscend_numbered (prev : Char) (line : ℕ) (text : List Char) :
    LinesAscend (numbered prev line text) := by
  induction text generalizing prev line with
  | nil =>
      intro t rest hsuffix
      cases List.suffix_nil.1 hsuffix
  | cons c text ih =>
      intro t rest hsuffix ht u hu hends
      rw [numbered] at hsuffix
      rcases List.suffix_cons_iff.1 hsuffix with heq | hsuffix
      · rw [List.cons_eq_cons] at heq
        have ⟨hhead, htail⟩ := heq
        rw [hhead] at ht ⊢
        have hc : isEol c = false := by simpa [notEol] using ht
        have hline : endsLine prev c = false := by
          rw [isEol, Bool.or_eq_false_iff, decide_eq_false_iff_not,
            decide_eq_false_iff_not] at hc
          simp [endsLine, hc]
        rw [htail, hline, if_neg (by decide)] at hu
        exact lt_of_mem_dropWhile_numbered hc hu hends
      · exact ih _ _ t rest hsuffix ht u hu hends

theorem commentAtMarker_cons {t : Position} (ht : notEol t = true) (rest : List Position) :
    commentAtMarker (t :: rest) =
      (t.2, String.ofList (t.1 :: (rest.takeWhile notEol).map Prod.fst)) := by
  rw [commentAtMarker, List.takeWhile_cons_of_pos ht]
  rfl

/-- Comments on different lines, in the order of the lines. -/
theorem line_lt
    {place later : List Position} (hlines : LinesAscend place) (hplace : isMarker place = true)
    (hlater : isMarker later = true) (hsuffix : later <:+ nextLine place) :
    (commentAtMarker place).1 < (commentAtMarker later).1 := by
  cases place with
  | nil => cases hplace
  | cons t rest =>
      cases later with
      | nil => cases hlater
      | cons u more =>
          have ht := (notEol_of_isMarker hplace).1
          have hu := (notEol_of_isMarker hlater).1
          have hmem : u ∈ rest.dropWhile notEol := by
            rw [nextLine, List.dropWhile_cons_of_pos ht] at hsuffix
            exact (hsuffix.trans (suffix_afterEol _)).mem List.mem_cons_self
          rw [commentAtMarker_cons ht, commentAtMarker_cons hu]
          exact hlines t rest (List.suffix_refl _) ht u hmem hu

/-- Two markers never begin the same comment: the later one is on a later line, or its text is
shorter. -/
theorem commentAtMarker_ne
    {place later : List Position} (hlines : LinesAscend place) (hplace : isMarker place = true)
    (hlater : isMarker later = true) (hsuffix : later <:+ place) (hne : later ≠ place) :
    commentAtMarker place ≠ commentAtMarker later := by
  intro heq
  cases place with
  | nil => cases hplace
  | cons t rest =>
      cases later with
      | nil => cases hlater
      | cons u more =>
          have ht := (notEol_of_isMarker hplace).1
          have hu := (notEol_of_isMarker hlater).1
          have ⟨before, hrest⟩ := (List.suffix_cons_iff.1 hsuffix).resolve_left hne
          rw [commentAtMarker_cons ht, commentAtMarker_cons hu, Prod.mk.injEq] at heq
          have ⟨hline, htext⟩ := heq
          by_cases hbefore : ∀ v ∈ before, notEol v = true
          · have hlength := congrArg String.length htext
            rw [← hrest, List.takeWhile_append_of_pos hbefore, String.length_ofList,
              String.length_ofList, List.takeWhile_cons_of_pos hu] at hlength
            simp only [List.length_cons, List.length_map, List.length_append] at hlength
            omega
          · have hmem : u ∈ rest.dropWhile notEol := by
              have hdrop : (before.dropWhile notEol).isEmpty = false := by
                rw [List.isEmpty_eq_false_iff]
                intro hnil
                exact hbefore (List.dropWhile_eq_nil_iff.1 hnil)
              rw [← hrest, List.dropWhile_append, hdrop, if_neg (by decide)]
              exact List.mem_append_right _ List.mem_cons_self
            have hlt := hlines t rest (List.suffix_refl _) ht u hmem hu
            omega

/-! ## What the scan finds -/

theorem suffix_of_mem_foundPlaces
    {input place : List Position} (h : place ∈ foundPlaces input) :
    place <:+ input ∧ isMarker place = true := by
  induction input using foundPlaces.induct with
  | case1 input hnone =>
      rw [foundPlaces, dif_pos hnone] at h
      cases h
  | case2 input hsome ih =>
      rw [foundPlaces, dif_neg hsome] at h
      rcases List.mem_cons.1 h with rfl | h
      · exact ⟨suffix_nextMarker input, isMarker_nextMarker hsome⟩
      · obtain ⟨hsuffix, hmarker⟩ := ih h
        exact ⟨(hsuffix.trans (suffix_nextLine _)).trans (suffix_nextMarker input), hmarker⟩

theorem pairwise_foundPlaces {input : List Position} (hlines : LinesAscend input) :
    ((foundPlaces input).map commentAtMarker).Pairwise fun c d => c.1 < d.1 := by
  induction input using foundPlaces.induct with
  | case1 input hnone =>
      rw [foundPlaces, dif_pos hnone]
      exact List.Pairwise.nil
  | case2 input hsome ih =>
      have hplace := hlines.suffix (suffix_nextMarker input)
      rw [foundPlaces, dif_neg hsome, List.map_cons, List.pairwise_cons]
      refine ⟨?_, ih (hplace.suffix (suffix_nextLine _))⟩
      intro comment hcomment
      obtain ⟨later, hlater, heq⟩ := List.mem_map.1 hcomment
      obtain ⟨hsuffix, hmarker⟩ := suffix_of_mem_foundPlaces hlater
      rw [← heq]
      exact line_lt hplace (isMarker_nextMarker hsome) hmarker hsuffix

theorem insertComment_last
    {comment : ℕ × String} {comments : List (ℕ × String)} (h : ∀ c ∈ comments, c.1 < comment.1) :
    insertComment comment comments = comments ++ [comment] := by
  induction comments with
  | nil => rfl
  | cons first rest ih =>
      have hfirst := h first List.mem_cons_self
      rw [insertComment, if_neg (by omega), if_neg (by omega),
        ih fun c hc => h c (List.mem_cons_of_mem first hc), List.cons_append]

/-- A map that is filled in the order of its keys. -/
theorem commentsMap_of_pairwise
    {found : List (ℕ × String)} (h : found.Pairwise fun c d => c.1 < d.1) :
    commentsMap found = found := by
  induction found using List.reverseRecOn with
  | nil => rfl
  | append_singleton found comment ih =>
      have ⟨hfound, _, hlast⟩ := List.pairwise_append.1 h
      have hrest : commentsMap found = found := ih hfound
      have hless : ∀ c ∈ found, c.1 < comment.1 :=
        fun c hc => hlast c hc comment (List.mem_singleton_self comment)
      unfold commentsMap at hrest ⊢
      rw [List.foldl_append, hrest]
      exact insertComment_last hless

theorem not_guarded_of_ne
    {place : List Position} (hempty : isEmptyString place = true)
    (hne : (commentPlaces place).headD [] ≠ seek isMarker place) : ¬ Guarded place := by
  intro h
  have hmem : place ∈ emptyStrings place := by
    cases place with
    | nil => cases hempty
    | cons t rest => exact List.mem_filter.2 ⟨List.mem_cons_self, hempty⟩
  exact hne (h place hmem).symm

/-- The scan finds the comments of a text exactly if its empty strings are guarded. -/
theorem foundPlaces_iff
    {input : List Position} (hclosed : closed .outside input = true)
    (hlines : LinesAscend input) :
    (foundPlaces input).map commentAtMarker = (commentPlaces input).map commentAtMarker ↔
      Guarded input := by
  induction input using foundPlaces.induct with
  | case1 input hnone =>
      have hsame := samePlaces_afterPadded input
      have hseek : seek isMarker (afterPadded input) = [] := hnone
      have hcomments := commentPlaces_of_seek_eq_nil hseek (List.suffix_refl _)
      rw [foundPlaces, dif_pos hnone, hsame.comments, hsame.guarded, hcomments]
      exact ⟨fun _ => guarded_of_seek_eq_nil hseek, fun _ => rfl⟩
  | case2 input hsome ih =>
      have hsame := samePlaces_afterPadded input
      have hplace := hlines.suffix (suffix_nextMarker input)
      have hmarker := isMarker_nextMarker hsome
      have hcases := afterPadded_cases hclosed
      rw [hsame.closed] at hclosed
      rw [foundPlaces, dif_neg hsome, hsame.comments, hsame.guarded, List.map_cons]
      by_cases hhead : (commentPlaces (afterPadded input)).headD [] = nextMarker input
      · -- The marker that is found is that of the next comment.
        obtain ⟨hcomments, hends, hguarded⟩ := guarded_of_seek hsome hhead
        obtain ⟨hfirst, _, hlast⟩ := places_of_isMarker hmarker
        change commentPlaces (afterPadded input) = commentPlaces (nextMarker input) at hcomments
        rw [hends] at hclosed
        rw [hguarded, hcomments, hfirst, List.map_cons, List.cons_inj_right]
        have hrest := ih (hlast.symm.trans hclosed) (hplace.suffix (suffix_nextLine _))
        exact hrest.trans (guarded_of_isMarker hmarker).symm
      · have hempty : isEmptyString (afterPadded input) = true := by
          rcases hcases with hnil | hat | hempty
          · exact absurd (by rw [nextMarker, hnil]; rfl) hsome
          · have hseek : nextMarker input = afterPadded input := seek_of_stop hat
            rw [(places_of_isMarker hat).1, hseek] at hhead
            exact absurd rfl hhead
          · exact hempty
        have hnot : ¬ Guarded (afterPadded input) := not_guarded_of_ne hempty hhead
        refine ⟨fun heq => ?_, fun h => absurd h hnot⟩
        -- The next comment, if there is one, begins behind the marker that is found.
        cases hcomments : commentPlaces (afterPadded input) with
        | nil =>
            rw [hcomments] at heq
            cases heq
        | cons later rest =>
            have hmem : later ∈ commentPlaces (afterPadded input) := by
              rw [hcomments]
              exact List.mem_cons_self
            obtain ⟨hlater, hlaterMarker⟩ := suffix_of_mem_commentPlaces hmem
            have hsuffix : later <:+ nextMarker input :=
              suffix_seek_isMarker hlater hlaterMarker
            rw [hcomments, List.headD_cons] at hhead
            rw [hcomments, List.map_cons, List.cons_eq_cons] at heq
            exact absurd heq.1 (commentAtMarker_ne hplace hmarker hlaterMarker hsuffix hhead)

/-! ## The comments of a text -/

theorem commentObject_injective : Function.Injective commentObject := by
  intro c d h
  rw [commentObject, commentObject, Value.object.injEq] at h
  simp only [List.cons.injEq, Prod.mk.injEq, Value.integer.injEq, Value.string.injEq,
    true_and, and_true] at h
  have ⟨hline, htext⟩ := h
  have htext := congrArg fromJsonString htext
  rw [fromJsonString_toJsonString, fromJsonString_toJsonString] at htext
  exact Prod.ext (by omega) htext

theorem commentAtMarker_ne_placeholder {place : List Position} (h : isMarker place = true) :
    commentAtMarker place ≠ (0, "No comments") := by
  intro heq
  cases place with
  | nil => cases h
  | cons t rest =>
      have htext := congrArg (fun c : ℕ × String => c.2.toList.head?) heq
      rw [commentAtMarker_cons (notEol_of_isMarker h).1] at htext
      simp only [String.toList_ofList, List.head?_cons] at htext
      have hchar : t.1 = 'N' := Option.some.inj htext
      have hmarker := isMarker_of_ne (t := t) (by rw [hchar]; decide) (by rw [hchar]; decide) rest
      rw [hmarker] at h
      cases h

/-- The placeholder stands for no comments only. -/
theorem placeholder_iff
    (found comments : List (List Position)) (hfound : ∀ place ∈ found, isMarker place = true)
    (hcomments : ∀ place ∈ comments, isMarker place = true) :
    (if found = [] then [(0, "No comments")] else found.map commentAtMarker) =
        (if comments = [] then [(0, "No comments")] else comments.map commentAtMarker) ↔
      found.map commentAtMarker = comments.map commentAtMarker := by
  have hplaceholder : ∀ places : List (List Position), (∀ place ∈ places, isMarker place = true) →
      places.map commentAtMarker ≠ [(0, "No comments")] := by
    intro places hplaces heq
    have hmem : (0, "No comments") ∈ places.map commentAtMarker := by
      rw [heq]
      exact List.mem_cons_self
    have ⟨place, hplace, hcomment⟩ := List.mem_map.1 hmem
    exact commentAtMarker_ne_placeholder (hplaces place hplace) hcomment
  by_cases hf : found = [] <;> by_cases hc : comments = []
  · simp [hf, hc]
  · rw [if_pos hf, if_neg hc, hf, List.map_nil]
    exact ⟨fun h => absurd h.symm (hplaceholder comments hcomments),
      fun h => absurd (List.map_eq_nil_iff.1 h.symm) hc⟩
  · rw [if_neg hf, if_pos hc, hc, List.map_nil]
    exact ⟨fun h => absurd h (hplaceholder found hfound),
      fun h => absurd (List.map_eq_nil_iff.1 h) hf⟩
  · rw [if_neg hf, if_neg hc]

theorem ascii_numbered
    {prev : Char} {line : ℕ} {text : List Char} (h : ∀ c ∈ text, c.toNat < 128) :
    Ascii (numbered prev line text) := by
  induction text generalizing prev line with
  | nil =>
      intro t ht
      cases ht
  | cons c rest ih =>
      rw [numbered]
      exact List.forall_mem_cons.2
        ⟨h c List.mem_cons_self, ih fun d hd => h d (List.mem_cons_of_mem c hd)⟩

theorem readComments_eq
    {text : String} (hascii : ∀ c ∈ text.toList, c.toNat < 128) (hne : text ≠ "") :
    readComments text [] =
      .ok ((if foundPlaces (positions text) = [] then [(0, "No comments")]
        else (foundPlaces (positions text)).map commentAtMarker).map commentObject) := by
  have hpositions : Ascii (positions text) := ascii_numbered hascii
  have hlines : LinesAscend (positions text) := linesAscend_numbered '\x00' 1 text.toList
  have hrule := commentsRule_of_foundPlaces hpositions
  have hsorted := commentsMap_of_pairwise (pairwise_foundPlaces hlines)
  have hrun : readComments text [] = .ok ((match commentsRule (positions text) with
      | none => [(0, "No comments")]
      | some (found, _) => commentsMap found).map commentObject) := by
    rw [readComments, confirm, confirm, decide_eq_true hne]
    rfl
  rw [hrun]
  cases hparse : commentsRule (positions text) with
  | none =>
      rw [hparse, Option.map_none] at hrule
      have hfound : foundPlaces (positions text) = [] := by
        by_contra h
        rw [if_neg h] at hrule
        cases hrule
      rw [if_pos hfound]
  | some result =>
      rw [hparse, Option.map_some] at hrule
      have hfound : foundPlaces (positions text) ≠ [] := by
        intro h
        rw [if_pos h] at hrule
        cases hrule
      rw [if_neg hfound, Option.some.injEq] at hrule
      rw [if_neg hfound, ← hsorted, ← hrule]

end FhiclComments

end ArtdaqDatabase
