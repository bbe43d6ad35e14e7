import ArtdaqDatabase.LeftmostSearch
import ArtdaqDatabase.JsonReader

/-!
# Include directives of a text that is read

`FhiclReader::read_data` rewrites the directives in front of the parse, in a buffer that it
searches and edits in turn.  The search goes for `#include` and a blank wherever they
stand, and takes what follows up to a quote.
-/

namespace ArtdaqDatabase

open LeftmostSearch

/-! ## The rewriting loop -/

def isQuote (c : Char) : Bool :=
  c = '\'' || c = '"'

def pound : List Char :=
  ['#', 'i', 'n', 'c', 'l', 'u', 'd', 'e']

/-- The length of a match of `(#include\s)([^'"]*)`. -/
def includeSize (input : List Char) : Option ℕ :=
  if pound.isPrefixOf input then
    match input.drop 8 with
    | [] => none
    | s :: rest => if isSpace s then some (9 + (rest.takeWhile fun c => !isQuote c).length) else none
  else none

def fhiclPoundInclude : List Char :=
  ['f', 'h', 'i', 'c', 'l', '_', 'p', 'o', 'u', 'n', 'd', '_', 'i', 'n', 'c', 'l', 'u', 'd', 'e',
    '_']

/-- The name that a directive gets in the text that is parsed. -/
def poundInclude (idx : ℕ) : List Char :=
  fhiclPoundInclude ++ (toString idx).toList ++ [':']

/-- The text after one replacement. -/
def replaceAt (conf : List Char) (position length : ℕ) (token : List Char) : List Char :=
  conf.take position ++ token ++ conf.drop (position + length)

theorem poundInclude_quiet (idx : ℕ) : '#' ∉ poundInclude idx := by
  have hdigits : ∀ c ∈ (toString idx).toList, c ≠ '#' := by
    intro c hc
    rw [Nat.toString_eq_repr, Nat.toList_repr] at hc
    have hdigit := Nat.isDigit_of_mem_toDigits (by decide) (by decide) hc
    rintro rfl
    exact absurd hdigit (by decide)
  intro h
  simp only [poundInclude, List.mem_append, List.mem_singleton] at h
  rcases h with (h | h) | h
  · exact absurd h (by decide)
  · exact hdigits _ h rfl
  · exact absurd h (by decide)

theorem includeSize_of_ne {c : Char} (hc : c ≠ '#') (rest : List Char) :
    includeSize (c :: rest) = none := by
  have hprefix : pound.isPrefixOf (c :: rest) = false := by
    simp [pound, List.isPrefixOf, Ne.symm hc]
  rw [includeSize, hprefix]
  rfl

theorem includeSize_eq_some {c : Char} {rest : List Char} {length : ℕ}
    (h : includeSize (c :: rest) = some length) : c = '#' ∧ 9 ≤ length := by
  constructor
  · by_contra hc
    rw [includeSize_of_ne hc] at h
    cases h
  · unfold includeSize at h
    split at h
    · split at h
      · cases h
      · split at h
        · cases h
          omega
        · cases h
    · cases h

/-- Marks that are left to be found behind a place. -/
def marksFrom (conf : List Char) (offset : ℕ) : ℕ :=
  (conf.drop offset).count '#'

/-- A match that is found begins with a mark. -/
theorem search_includeSize
    {conf : List Char} {offset position length : ℕ}
    (h : search includeSize (conf.drop offset) = some (position, length)) :
    offset + position < conf.length ∧ 9 ≤ length ∧
      ∃ rest, conf.drop (offset + position) = '#' :: rest := by
  have ⟨hlt, hsize⟩ := search_eq_some h
  rw [List.length_drop] at hlt
  rw [List.drop_drop] at hsize
  obtain ⟨c, rest, hdrop⟩ : ∃ c rest, conf.drop (offset + position) = c :: rest :=
    ⟨_, _, List.drop_eq_getElem_cons (by omega)⟩
  rw [hdrop] at hsize ⊢
  have ⟨hc, hlength⟩ := includeSize_eq_some hsize
  exact ⟨by omega, hlength, rest, by rw [hc]⟩

theorem marksFrom_replaceAt
    {conf : List Char} {offset position length idx : ℕ}
    (h : search includeSize (conf.drop offset) = some (position, length)) :
    marksFrom (replaceAt conf (offset + position) length (poundInclude idx))
      (offset + position + length) < marksFrom conf offset := by
  have ⟨hlt, hlength, rest, hrest⟩ := search_includeSize h
  have htaken : (conf.take (offset + position)).length = offset + position := by
    rw [List.length_take]
    omega
  have hquiet : (poundInclude idx).count '#' = 0 := List.count_eq_zero.2 (poundInclude_quiet idx)
  have hbehind : conf.drop (offset + position + length) = rest.drop (length - 1) := by
    rw [← List.drop_drop, hrest, show length = length - 1 + 1 by omega, List.drop_succ_cons]
    rfl
  have hleft : marksFrom (replaceAt conf (offset + position) length (poundInclude idx))
      (offset + position + length) ≤ rest.count '#' := by
    rw [marksFrom, replaceAt, List.append_assoc, ← List.drop_drop, List.drop_left' htaken, hbehind]
    have htail := (List.drop_sublist length (poundInclude idx ++ rest.drop (length - 1))).count_le '#'
    have hrestTail := (List.drop_sublist (length - 1) rest).count_le '#'
    rw [List.count_append, hquiet] at htail
    omega
  have hhere : (conf.drop offset).count '#' =
      ((conf.drop offset).take position).count '#' + (rest.count '#' + 1) := by
    rw [← List.count_cons_self, ← hrest, ← List.drop_drop, ← List.count_append,
      List.take_append_drop]
  unfold marksFrom at hleft ⊢
  omega

/-- The loop of `read_data` over a buffer of some capacity.  Beyond it the buffer moves, and the
iterator that is left behind is good for nothing; so it is past the end of the buffer. -/
def rewriteIncludes (capacity : ℕ) (conf : List Char) (offset idx : ℕ) : Option (List Char) :=
  match h : search includeSize (conf.drop offset) with
  | none => some conf
  | some (position, length) =>
      let conf' := replaceAt conf (offset + position) length (poundInclude idx)
      let offset' := offset + position + length
      if capacity < conf'.length ∨ conf'.length < offset' then none
      else rewriteIncludes capacity conf' offset' (idx + 1)
termination_by marksFrom conf offset
decreasing_by exact marksFrom_replaceAt h

theorem rewriteIncludes_of_none
    {capacity : ℕ} {conf : List Char} {offset idx : ℕ}
    (h : search includeSize (conf.drop offset) = none) :
    rewriteIncludes capacity conf offset idx = some conf := by
  rw [rewriteIncludes]
  split
  · rfl
  · rename_i hsome
    rw [h] at hsome
    cases hsome

theorem rewriteIncludes_of_some
    {capacity : ℕ} {conf : List Char} {offset idx position length : ℕ}
    (h : search includeSize (conf.drop offset) = some (position, length)) :
    rewriteIncludes capacity conf offset idx =
      if capacity < (replaceAt conf (offset + position) length (poundInclude idx)).length ∨
          (replaceAt conf (offset + position) length (poundInclude idx)).length <
            offset + position + length then none
      else rewriteIncludes capacity (replaceAt conf (offset + position) length (poundInclude idx))
        (offset + position + length) (idx + 1) := by
  rw [rewriteIncludes]
  split
  · rename_i hnone
    rw [h] at hnone
    cases hnone
  · rename_i hsome
    rw [h] at hsome
    cases hsome
    rfl

/-- What is in front of the iterator stays as it is. -/
theorem rewriteIncludes_take
    {capacity : ℕ} {conf result : List Char} {offset idx : ℕ} (hoffset : offset ≤ conf.length)
    (h : rewriteIncludes capacity conf offset idx = some result) :
    result.take offset = conf.take offset := by
  induction conf, offset, idx using rewriteIncludes.induct capacity with
  | case1 conf offset idx hsearch =>
      rw [rewriteIncludes_of_none hsearch] at h
      cases h
      rfl
  | case2 conf offset idx position length hsearch conf' offset' hbad =>
      rw [rewriteIncludes_of_some hsearch, if_pos hbad] at h
      cases h
  | case3 conf offset idx position length hsearch conf' offset' hgood ih =>
      rw [rewriteIncludes_of_some hsearch, if_neg hgood] at h
      rw [not_or] at hgood
      have htail := ih (Nat.not_lt.1 hgood.2) h
      have hle : offset ≤ offset' := by
        simp only [offset']
        omega
      have hhead := congrArg (List.take offset) htail
      rw [List.take_take, List.take_take, Nat.min_eq_left hle] at hhead
      have ⟨hlt, _⟩ := search_includeSize hsearch
      have hinside : offset ≤ (conf.take (offset + position)).length := by
        rw [List.length_take]
        omega
      rw [hhead]
      simp only [conf', replaceAt]
      rw [List.append_assoc, List.take_append_of_le_length hinside, List.take_take,
        Nat.min_eq_left (Nat.le_add_right offset position)]

/-! ## Directives -/

def directiveWord : List Char :=
  pound ++ [' ', '"']

/-- The token of a directive goes in front of its quote. -/
def directiveToken (idx : ℕ) : List Char :=
  poundInclude idx ++ ['"']

/-- A line of the form `#include "file"`, maybe with more behind it. -/
def isDirective (input : List Char) : Bool :=
  directiveWord.isPrefixOf input && decide ('"' ∈ (input.drop 10).takeWhile fun c => c ≠ '\n')

/-- The directives of a text; `bol` says that a line begins. -/
def directives (bol : Bool) : List Char → List (Piece Char)
  | [] => []
  | c :: rest =>
      if bol && isDirective (c :: rest) then .directive :: directives false (rest.drop 9)
      else .kept c :: directives (decide (c = '\n')) rest
termination_by input => input.length
decreasing_by
  · simp only [List.length_drop, List.length_cons]
    omega
  · simp

theorem source_directives (bol : Bool) (text : List Char) :
    source directiveWord (directives bol text) = text := by
  induction bol, text using directives.induct with
  | case1 bol => rw [directives, source]
  | case2 bol c rest h ih =>
      rw [directives, if_pos h, source, ih]
      rw [Bool.and_eq_true, isDirective, Bool.and_eq_true, List.isPrefixOf_iff_prefix] at h
      obtain ⟨-, ⟨tail, htail⟩, -⟩ := h
      have hrest : rest.drop 9 = tail := by
        rw [← List.drop_succ_cons (a := c), ← htail]
        rfl
      rw [hrest, htail]
  | case3 bol c rest h ih => rw [directives, if_neg h, source, ih]

/-- The text with the prefixes of its directives rewritten, and nothing else. -/
def rewrittenIncludes (text : List Char) : List Char :=
  target directiveToken 0 (directives true text)

/-! ## The room that the directives take -/

/-- How much longer a text gets with the numbers of its directives. -/
def growth (idx : ℕ) : ℕ → ℕ
  | 0 => 0
  | n + 1 => 12 + (toString idx).length + growth (idx + 1) n

theorem length_target_directives (pieces : List (Piece Char)) (idx : ℕ) :
    (target directiveToken idx pieces).length =
      (source directiveWord pieces).length + growth idx (directiveCount pieces) := by
  induction pieces generalizing idx with
  | nil => rfl
  | cons piece pieces ih =>
      cases piece with
      | kept c =>
          rw [target, source, directiveCount, List.length_cons, List.length_cons, ih idx]
          omega
      | directive =>
          have hword : directiveWord.length = 10 := rfl
          have htoken : (directiveToken idx).length = 22 + (toString idx).length := by
            have hname : fhiclPoundInclude.length = 20 := rfl
            rw [directiveToken, poundInclude, List.length_append, List.length_append,
              List.length_append, String.length_toList, hname, List.length_singleton,
              List.length_singleton]
            omega
          rw [target, source, directiveCount, List.length_append, List.length_append,
            ih (idx + 1), growth]
          omega

/-! ## The loop against the directives -/

theorem includeSize_directive (rest : List Char) :
    includeSize (directiveWord ++ rest) = some 9 := rfl

theorem directiveToken_quiet (idx : ℕ) : '#' ∉ directiveToken idx := by
  rw [directiveToken, List.mem_append, not_or]
  exact ⟨poundInclude_quiet idx, by decide⟩

theorem length_directiveToken (idx : ℕ) : 21 ≤ (directiveToken idx).length := by
  simp [directiveToken, poundInclude, fhiclPoundInclude]

/-- The search goes on where the last match was replaced. -/
theorem search_drop_append
    {pre input : List Char} {offset length : ℕ} (hoffset : offset ≤ pre.length)
    (hsilent : Silent includeSize (pre.drop offset) input)
    (h : search includeSize input = some (0, length)) :
    search includeSize ((pre ++ input).drop offset) = some (pre.length - offset, length) := by
  rw [List.drop_append_of_le_length hoffset, hsilent, h]
  simp

theorem replaceAt_append (pre input token : List Char) (length : ℕ) :
    replaceAt (pre ++ input) pre.length length token = pre ++ (token ++ input.drop length) := by
  rw [replaceAt, List.take_left, ← List.drop_drop, List.drop_left, List.append_assoc]

/-- A match that is no directive leaves its mark. -/
theorem rewriteIncludes_stray
    {capacity : ℕ} {pre rest : List Char} {offset idx length : ℕ} {c : Char}
    (hoffset : offset ≤ pre.length) (hsilent : Silent includeSize (pre.drop offset) (c :: rest))
    (hmatch : includeSize (c :: rest) = some length) (kept : List Char) :
    rewriteIncludes capacity (pre ++ c :: rest) offset idx ≠ some (pre ++ c :: kept) := by
  intro h
  have ⟨hc, hlength⟩ := includeSize_eq_some hmatch
  have hsearch := search_drop_append hoffset hsilent (search_cons_of_match hmatch)
  rw [rewriteIncludes_of_some hsearch, Nat.add_sub_cancel' hoffset, replaceAt_append] at h
  split at h
  · cases h
  · rename_i hgood
    rw [not_or] at hgood
    have htake := rewriteIncludes_take (Nat.not_lt.1 hgood.2) h
    have hchar := congrArg (fun text : List Char => text[pre.length]?) htake
    have hlt : pre.length < pre.length + length := by omega
    simp only [List.getElem?_take_of_lt hlt] at hchar
    rw [List.getElem?_append_right (Nat.le_refl _), List.getElem?_append_right (Nat.le_refl _),
      Nat.sub_self, hc] at hchar
    have hne : some '#' ≠ some 'f' := by decide
    exact hne hchar

/-- The loop replaces the directives alone exactly when there is nothing else to match and the
buffer need not move. -/
theorem rewriteIncludes_pieces
    {capacity : ℕ} (pieces : List (Piece Char)) (pre : List Char) {offset : ℕ} (idx : ℕ)
    (hcapacity : (pre ++ source directiveWord pieces).length ≤ capacity)
    (hoffset : offset ≤ pre.length)
    (hsilent : Silent includeSize (pre.drop offset) (source directiveWord pieces)) :
    rewriteIncludes capacity (pre ++ source directiveWord pieces) offset idx =
        some (pre ++ target directiveToken idx pieces) ↔
      Clean includeSize directiveWord pieces ∧
        (pre ++ target directiveToken idx pieces).length ≤ capacity := by
  induction pieces generalizing pre offset idx with
  | nil =>
      have hsearch : search includeSize ((pre ++ []).drop offset) = none := by
        rw [List.drop_append_of_le_length hoffset, show ([] : List Char) = source directiveWord []
          from rfl, hsilent]
        rfl
      exact iff_of_true (rewriteIncludes_of_none hsearch) ⟨trivial, hcapacity⟩
  | cons piece pieces ih =>
      cases piece with
      | kept c =>
          rw [source] at hcapacity hsilent ⊢
          rw [target, Clean]
          cases hmatch : includeSize (c :: source directiveWord pieces) with
          | some length =>
              refine iff_of_false (rewriteIncludes_stray hoffset hsilent hmatch _) ?_
              simp
          | none =>
              have hpre : offset ≤ (pre ++ [c]).length := by
                rw [List.length_append]
                omega
              have hquiet : Silent includeSize ((pre ++ [c]).drop offset)
                  (source directiveWord pieces) := by
                rw [List.drop_append_of_le_length hoffset]
                exact hsilent.concat hmatch
              have hlength : (pre ++ [c] ++ source directiveWord pieces).length ≤ capacity := by
                simpa using hcapacity
              have hrest := ih (pre ++ [c]) idx hlength hpre hquiet
              simpa using hrest
      | directive =>
          have hsearch : search includeSize ((pre ++ source directiveWord (.directive :: pieces)).drop
              offset) = some (pre.length - offset, 9) :=
            search_drop_append hoffset hsilent (search_cons_of_match (includeSize_directive _))
          have hreplaced : replaceAt (pre ++ source directiveWord (.directive :: pieces)) pre.length 9
              (poundInclude idx) = pre ++ directiveToken idx ++ source directiveWord pieces := by
            rw [replaceAt_append, directiveToken, List.append_assoc, List.append_assoc]
            rfl
          have htoken := length_directiveToken idx
          have hoffset' : pre.length + 9 ≤ (pre ++ directiveToken idx).length := by
            rw [List.length_append]
            omega
          have hquiet : Silent includeSize ((pre ++ directiveToken idx).drop (pre.length + 9))
              (source directiveWord pieces) := by
            apply silent_of_quiet
            intro d hd rest
            apply includeSize_of_ne
            rintro rfl
            rw [← List.drop_drop, List.drop_left] at hd
            exact directiveToken_quiet idx (List.mem_of_mem_drop hd)
          have hlonger := length_target_directives pieces (idx + 1)
          rw [rewriteIncludes_of_some hsearch, Nat.add_sub_cancel' hoffset, hreplaced, target, Clean,
            ← List.append_assoc]
          by_cases hfits : (pre ++ directiveToken idx ++ source directiveWord pieces).length ≤ capacity
          · have hgood : ¬ (capacity < (pre ++ directiveToken idx ++
                source directiveWord pieces).length ∨
                (pre ++ directiveToken idx ++ source directiveWord pieces).length <
                  pre.length + 9) := by
              rw [List.length_append]
              rw [List.length_append] at hfits
              omega
            rw [if_neg hgood]
            exact ih _ _ hfits hoffset' hquiet
          · have hlong : capacity <
                (pre ++ directiveToken idx ++ target directiveToken (idx + 1) pieces).length := by
              rw [List.length_append] at hfits ⊢
              omega
            rw [if_pos (Or.inl (Nat.not_le.1 hfits))]
            refine iff_of_false (by simp) fun h => ?_
            exact absurd h.2 (Nat.not_le.2 hlong)

/-- Only the prefixes of the directives are rewritten exactly when nothing else matches and the
reserved room is enough for all of them. -/
theorem rewriteIncludes_iff_clean
    {capacity : ℕ} {text : List Char} (hcapacity : text.length ≤ capacity) :
    rewriteIncludes capacity text 0 0 = some (rewrittenIncludes text) ↔
      Clean includeSize directiveWord (directives true text) ∧
        text.length + growth 0 (directiveCount (directives true text)) ≤ capacity := by
  have hsource := source_directives true text
  have hlength : ([] ++ source directiveWord (directives true text)).length ≤ capacity := by
    rw [hsource]
    exact hcapacity
  have hpieces := rewriteIncludes_pieces (directives true text) [] 0 hlength (Nat.zero_le 0)
    (silent_nil _)
  rw [List.nil_append, List.nil_append, hsource, length_target_directives, hsource] at hpieces
  exact hpieces

end ArtdaqDatabase
