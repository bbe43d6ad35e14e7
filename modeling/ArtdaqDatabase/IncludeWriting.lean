import ArtdaqDatabase.IncludeReading
import ArtdaqDatabase.FhiclSections

/-!
# Include parameters of a text that is generated

`FhiclWriter::write_data` generates a text from the tables and rewrites the parameters that
stand for include directives.  The loop keeps the two ends of the text as they were before the
first replacement, so behind the text it sees what the storage still holds.
-/

namespace ArtdaqDatabase

open LeftmostSearch

/-! ## The generator -/

/-- The annotation of a value, which ends its line. -/
def annotationText : Option String → List Char
  | none => []
  | some text => ' ' :: text.toList ++ ['\n']

/-- The comment of a key, on a line of its own. -/
def commentText (key : FclKey) : List Char :=
  match key.comment with
  | none => []
  | some comment => comment.toList ++ ['\n']

/-- `commented_key_rule`. -/
def generateKey (key : FclKey) : List Char :=
  commentText key ++ key.key.toList

mutual

/-- `annotated_value_rule`. -/
def generateValue : FclValue → List Char
  | .table atoms annotation =>
      '\x7b' :: '\n' :: generateAtoms atoms ++ ['\n', '\x7d'] ++ annotationText annotation
  | .sequence values annotation => '[' :: generateValues values ++ [']'] ++ annotationText annotation
  | .string text annotation => text.toList ++ annotationText annotation
  | .decimal text annotation => text.toList ++ annotationText annotation
  | .integer number annotation => (toString number).toList ++ annotationText annotation
  | .boolean flag annotation => (toString flag).toList ++ annotationText annotation

def generateValues : List FclValue → List Char
  | [] => []
  | [value] => generateValue value
  | value :: next :: values => generateValue value ++ ',' :: ' ' :: generateValues (next :: values)

/-- Every atom of a table, by `annotated_atom_rule`. -/
def generateAtoms : List Atom → List Char
  | [] => []
  | (key, value) :: atoms => generateKey key ++ ':' :: ' ' :: generateValue value ++ generateAtoms atoms

end

/-- The buffer of `write_data` in front of the rewriting. -/
def generate (tables : FhiclTables) : List Char :=
  (if tables.prolog = [] then []
    else "BEGIN_PROLOG\n".toList ++ generateAtoms tables.prolog ++ "\nEND_PROLOG\n".toList) ++
  generateAtoms tables.main

/-! ## The rewriting loop -/

/-- The length of a match of `(#include\s*:)([^"]*)`. -/
def colonSize (input : List Char) : Option ℕ :=
  if pound.isPrefixOf input then
    match (input.drop 8).dropWhile isSpace with
    | ':' :: tail =>
        some (9 + ((input.drop 8).takeWhile isSpace).length + (tail.takeWhile fun c => c ≠ '"').length)
    | _ => none
  else none

def includeToken : List Char :=
  pound ++ [' ']

/-- The storage of a string after one replacement, which is terminated anew; what was behind
stays there. -/
def storeAt (storage : List Char) (size position length : ℕ) : List Char × ℕ :=
  let text := (storage.take size).take position ++ includeToken ++
    (storage.take size).drop (position + length)
  (text ++ '\x00' :: storage.drop (text.length + 1), text.length)

theorem colonSize_of_ne {c : Char} (hc : c ≠ '#') (rest : List Char) :
    colonSize (c :: rest) = none := by
  have hprefix : pound.isPrefixOf (c :: rest) = false := by
    simp [pound, List.isPrefixOf, Ne.symm hc]
  rw [colonSize, hprefix]
  rfl

/-- The parts of a match. -/
theorem colonSize_eq_some {input : List Char} {length : ℕ} (h : colonSize input = some length) :
    ∃ blanks tail, input = pound ++ blanks ++ ':' :: tail ∧ (∀ c ∈ blanks, isSpace c = true) ∧
      length = 9 + blanks.length + (tail.takeWhile fun c => c ≠ '"').length := by
  unfold colonSize at h
  split at h
  · rename_i hprefix
    rw [List.isPrefixOf_iff_prefix] at hprefix
    obtain ⟨rest, rfl⟩ := hprefix
    have hdrop : (pound ++ rest).drop 8 = rest := rfl
    rw [hdrop] at h
    split at h
    · rename_i tail htail
      cases h
      refine ⟨rest.takeWhile isSpace, tail, ?_, List.all_eq_true.1 List.all_takeWhile, rfl⟩
      rw [List.append_assoc, ← htail, List.takeWhile_append_dropWhile]
    · cases h
  · cases h

theorem colonSize_parts {blanks : List Char} (hblanks : ∀ c ∈ blanks, isSpace c = true)
    (tail : List Char) :
    colonSize (pound ++ blanks ++ ':' :: tail) =
      some (9 + blanks.length + (tail.takeWhile fun c => c ≠ '"').length) := by
  have hprefix : pound.isPrefixOf (pound ++ blanks ++ ':' :: tail) = true := by
    rw [List.isPrefixOf_iff_prefix, List.append_assoc]
    exact List.prefix_append _ _
  have hdrop : (pound ++ blanks ++ ':' :: tail).drop 8 = blanks ++ ':' :: tail := rfl
  have hrest : (blanks ++ ':' :: tail).dropWhile isSpace = ':' :: tail := by
    rw [dropWhile_blanks hblanks]
    rfl
  have htaken : (blanks ++ ':' :: tail).takeWhile isSpace = blanks := by
    rw [List.takeWhile_append_of_pos hblanks]
    exact List.append_nil blanks
  rw [colonSize, hprefix, hdrop, hrest, htaken]
  rfl

/-- A match that is found begins with a mark, in the searched part of the storage. -/
theorem search_colonSize
    {storage : List Char} {start stop position length : ℕ}
    (h : search colonSize ((storage.take stop).drop start) = some (position, length)) :
    start + position < stop ∧ 9 ≤ length ∧ start + position < storage.length := by
  have ⟨hlt, hsize⟩ := search_eq_some h
  rw [List.length_drop, List.length_take] at hlt
  obtain ⟨blanks, tail, -, -, hlength⟩ := colonSize_eq_some hsize
  omega

theorem search_shrinks
    {storage : List Char} {start stop position length : ℕ}
    (h : search colonSize ((storage.take stop).drop start) = some (position, length)) :
    stop - (start + position + length) < stop - start := by
  have ⟨hlt, hlength, _⟩ := search_colonSize h
  omega

/-- The loop of `write_data`: the storage of the buffer, the size of the text in it, and the two
ends of the search.  A position behind the text is out of range. -/
def rewriteColons (storage : List Char) (size start stop : ℕ) : Option (List Char) :=
  match _hsearch : search colonSize ((storage.take stop).drop start) with
  | none => some (storage.take size)
  | some (position, length) =>
      if size < start + position then none
      else
        let stored := storeAt storage size (start + position) length
        rewriteColons stored.1 stored.2 (start + position + length) stop
termination_by stop - start
decreasing_by exact search_shrinks _hsearch

theorem rewriteColons_of_none
    {storage : List Char} {size start stop : ℕ}
    (h : search colonSize ((storage.take stop).drop start) = none) :
    rewriteColons storage size start stop = some (storage.take size) := by
  rw [rewriteColons]
  split
  · rfl
  · rename_i hsome
    rw [h] at hsome
    cases hsome

theorem rewriteColons_of_some
    {storage : List Char} {size start stop position length : ℕ}
    (h : search colonSize ((storage.take stop).drop start) = some (position, length)) :
    rewriteColons storage size start stop =
      if size < start + position then none
      else rewriteColons (storeAt storage size (start + position) length).1
        (storeAt storage size (start + position) length).2 (start + position + length) stop := by
  rw [rewriteColons]
  split
  · rename_i hnone
    rw [h] at hnone
    cases hnone
  · rename_i hsome
    rw [h] at hsome
    cases hsome
    rfl

theorem storeAt_text (storage : List Char) (size position length : ℕ) :
    (storeAt storage size position length).1.take (storeAt storage size position length).2 =
      (storage.take size).take position ++ includeToken ++
        (storage.take size).drop (position + length) := by
  simp only [storeAt]
  rw [List.take_left]

/-- What is in front of the search stays as it is. -/
theorem rewriteColons_take
    {storage result : List Char} {size start stop : ℕ} (hsize : size ≤ storage.length)
    (h : rewriteColons storage size start stop = some result) :
    result.take start = (storage.take size).take start := by
  induction storage, size, start using rewriteColons.induct stop with
  | case1 storage size start hsearch =>
      rw [rewriteColons_of_none hsearch] at h
      cases h
      rfl
  | case2 storage size start position length hsearch hout =>
      rw [rewriteColons_of_some hsearch, if_pos hout] at h
      cases h
  | case3 storage size start position length hsearch hinside stored ih =>
      rw [rewriteColons_of_some hsearch, if_neg hinside] at h
      have hstored : stored.2 ≤ stored.1.length := by
        simp only [stored, storeAt, List.length_append]
        omega
      have htail := ih hstored h
      have hhead := congrArg (List.take start) htail
      have hle : start ≤ start + position + length := by omega
      rw [List.take_take, List.take_take, Nat.min_eq_left hle, storeAt_text] at hhead
      have htaken : start ≤ ((storage.take size).take (start + position)).length := by
        rw [List.length_take, List.length_take]
        omega
      rw [hhead, List.append_assoc, List.take_append_of_le_length htaken, List.take_take,
        Nat.min_eq_left (Nat.le_add_right start position)]

/-! ## Parameters -/

def parameterWord : List Char :=
  pound ++ [':', ' ', '"']

def parameterToken (_idx : ℕ) : List Char :=
  includeToken ++ ['"']

/-- What is left in the storage behind a text that got shorter. -/
def nuls (k : ℕ) : List Char :=
  List.replicate k '\x00'

theorem prefix_of_append_nuls
    {input word tail : List Char} {k : ℕ} (hword : '\x00' ∉ word)
    (h : input ++ nuls k = word ++ tail) : ∃ rest, input = word ++ rest ∧ tail = rest ++ nuls k := by
  rw [List.append_eq_append_iff] at h
  rcases h with ⟨gap, rfl, hnuls⟩ | ⟨rest, rfl, rfl⟩
  · have hgap : gap = [] := by
      rw [List.eq_nil_iff_forall_not_mem]
      intro c hc
      have hmem : c ∈ nuls k := by
        rw [hnuls]
        exact List.mem_append_left tail hc
      rw [List.eq_of_mem_replicate hmem] at hc
      exact hword (List.mem_append_right input hc)
    subst hgap
    exact ⟨[], by simp, by simpa using hnuls.symm⟩
  · exact ⟨rest, rfl, rfl⟩

theorem core_quiet {blanks : List Char} (hblanks : ∀ c ∈ blanks, isSpace c = true) :
    '\x00' ∉ pound ++ blanks ++ [':'] ∧ '#' ∉ pound.tail ++ blanks ++ [':'] := by
  have hmem : ∀ c, isSpace c = false → c ∉ blanks := by
    intro c hc h
    rw [hblanks c h] at hc
    cases hc
  simp only [List.mem_append, not_or]
  exact ⟨⟨⟨by decide, hmem _ (by decide)⟩, by decide⟩, ⟨by decide, hmem _ (by decide)⟩, by decide⟩

/-- What is left in the storage adds no match. -/
theorem colonSize_append_nuls (input : List Char) (k : ℕ) :
    colonSize (input ++ nuls k) = none ↔ colonSize input = none := by
  rw [Option.eq_none_iff_forall_ne_some, Option.eq_none_iff_forall_ne_some, ← not_iff_not]
  simp only [not_forall, not_not]
  constructor
  · rintro ⟨length, h⟩
    obtain ⟨blanks, tail, hinput, hblanks, -⟩ := colonSize_eq_some h
    rw [← List.singleton_append, ← List.append_assoc] at hinput
    obtain ⟨rest, rfl, -⟩ := prefix_of_append_nuls (core_quiet hblanks).1 hinput
    rw [List.append_assoc, List.singleton_append]
    exact ⟨_, colonSize_parts hblanks rest⟩
  · rintro ⟨length, h⟩
    obtain ⟨blanks, tail, rfl, hblanks, -⟩ := colonSize_eq_some h
    rw [List.append_assoc, List.cons_append]
    exact ⟨_, colonSize_parts hblanks _⟩

theorem search_nuls (k : ℕ) : search colonSize (nuls k) = none := by
  have hquiet : ∀ c ∈ nuls k, ∀ rest, colonSize (c :: rest) = none := by
    intro c hc rest
    exact colonSize_of_ne (by rw [List.eq_of_mem_replicate hc]; decide) rest
  have h := silent_of_quiet hquiet []
  rw [Silent, List.append_nil] at h
  exact h

theorem colonSize_parameter (rest : List Char) : colonSize (parameterWord ++ rest) = some 10 := rfl

/-- The storage after the replacement of a parameter. -/
theorem storeAt_parameter (pre input more : List Char) (k : ℕ) :
    storeAt (pre ++ (parameterWord ++ input) ++ nuls k ++ more)
        (pre ++ (parameterWord ++ input)).length pre.length 10 =
      (pre ++ parameterToken 0 ++ input ++ nuls (k + 1) ++ more,
        (pre ++ parameterToken 0 ++ input).length) := by
  have htake : (pre ++ (parameterWord ++ input) ++ nuls k ++ more).take
      (pre ++ (parameterWord ++ input)).length = pre ++ (parameterWord ++ input) := by
    rw [List.append_assoc, List.take_left]
  have hdrop : (pre ++ (parameterWord ++ input)).drop (pre.length + 10) = '"' :: input := by
    rw [← List.drop_drop, List.drop_left]
    rfl
  have htext : pre ++ includeToken ++ '"' :: input = pre ++ parameterToken 0 ++ input := by
    rw [parameterToken, List.append_assoc, List.append_assoc, List.append_assoc]
    rfl
  have hlength : (pre ++ parameterToken 0 ++ input).length + 1 =
      (pre ++ (parameterWord ++ input)).length := by
    have hword : parameterWord.length = 11 := rfl
    have htoken : (parameterToken 0).length = 10 := rfl
    simp only [List.length_append]
    omega
  have hbehind : (pre ++ (parameterWord ++ input) ++ nuls k ++ more).drop
      ((pre ++ parameterToken 0 ++ input).length + 1) = nuls k ++ more := by
    rw [hlength, List.append_assoc _ (nuls k), List.drop_left]
  simp only [storeAt]
  rw [htake, List.take_left, hdrop, htext, hbehind]
  simp [nuls, List.replicate_succ]

theorem take_stop (text more : List Char) (k : ℕ) :
    (text ++ nuls k ++ more).take (text.length + k) = text ++ nuls k := by
  have hlength : text.length + k = (text ++ nuls k).length := by simp [nuls]
  rw [hlength, List.take_left]

/-- The search goes on where the last match was replaced. -/
theorem search_take_stop
    {pre input : List Char} (more : List Char) {start k length : ℕ} (hstart : start ≤ pre.length)
    (hsilent : Silent colonSize (pre.drop start) (input ++ nuls k))
    (h : search colonSize (input ++ nuls k) = some (0, length)) :
    search colonSize (((pre ++ input ++ nuls k ++ more).take ((pre ++ input).length + k)).drop
      start) = some (pre.length - start, length) := by
  rw [take_stop, List.append_assoc, List.drop_append_of_le_length hstart, hsilent, h]
  simp

/-- What stands behind the longest beginning of a kind is of another kind. -/
theorem head_drop_takeWhile {p : Char → Bool} {word rest : List Char} {d : Char}
    (h : (word.drop ((word ++ rest).takeWhile p).length).head? = some d) : p d = false := by
  induction word with
  | nil => simp at h
  | cons c word ih =>
      cases hc : p c with
      | true =>
          rw [List.cons_append, List.takeWhile_cons_of_pos hc, List.length_cons,
            List.drop_succ_cons] at h
          exact ih h
      | false =>
          rw [List.cons_append, List.takeWhile_cons_of_neg (by simp [hc])] at h
          cases h
          exact hc

/-- A match that is no parameter does not keep its text. -/
theorem rewriteColons_stray
    {pre rest more : List Char} {pieces : List (Piece Char)} {start k length : ℕ} {c : Char}
    (hstart : start ≤ pre.length) (hsource : source parameterWord pieces = rest)
    (hsilent : Silent colonSize (pre.drop start) (c :: rest ++ nuls k))
    (hmatch : colonSize (c :: rest ++ nuls k) = some length) (idx : ℕ) :
    rewriteColons (pre ++ c :: rest ++ nuls k ++ more) (pre ++ c :: rest).length start
        ((pre ++ c :: rest).length + k) ≠
      some (pre ++ c :: target parameterToken idx pieces) := by
  intro h
  obtain ⟨blanks, tail, hinput, hblanks, hlength⟩ := colonSize_eq_some hmatch
  rw [← List.singleton_append (l := tail), ← List.append_assoc] at hinput
  obtain ⟨behind, hcore, rfl⟩ := prefix_of_append_nuls (core_quiet hblanks).1 hinput
  have hkept : rest = pound.tail ++ blanks ++ [':'] ++ behind := by
    rw [show pound ++ blanks ++ [':'] ++ behind = '#' :: (pound.tail ++ blanks ++ [':'] ++ behind)
      from rfl, List.cons.injEq] at hcore
    exact hcore.2
  obtain ⟨others, hothers⟩ := exists_of_source_eq_append (core_quiet hblanks).2
    (hsource.trans hkept) parameterToken idx
  have hsearch := search_take_stop more hstart hsilent (search_cons_of_match hmatch)
  have hsize : (pre ++ c :: rest ++ nuls k ++ more).take (pre ++ c :: rest).length =
      pre ++ c :: rest := by
    rw [List.append_assoc, List.take_left]
  rw [rewriteColons_of_some hsearch, Nat.add_sub_cancel' hstart] at h
  split at h
  · cases h
  · have hstored : (storeAt (pre ++ c :: rest ++ nuls k ++ more) (pre ++ c :: rest).length pre.length
        length).2 ≤ (storeAt (pre ++ c :: rest ++ nuls k ++ more) (pre ++ c :: rest).length
          pre.length length).1.length := by
      simp only [storeAt, List.length_append]
      omega
    have htake := rewriteColons_take hstored h
    rw [storeAt_text, hsize, List.take_left, ← List.drop_drop, List.drop_left, hothers] at htake
    have hchar : ∀ i < length, (c :: (pound.tail ++ blanks ++ [':'] ++ others))[i]? =
        (includeToken ++ (c :: rest).drop length)[i]? := by
      intro i hi
      have hat := congrArg (fun text : List Char => text[pre.length + i]?) htake
      have hlt : pre.length + i < pre.length + length := by omega
      simp only [List.getElem?_take_of_lt hlt] at hat
      rw [List.append_assoc pre includeToken, List.getElem?_append_right (Nat.le_add_right _ _),
        List.getElem?_append_right (Nat.le_add_right _ _), Nat.add_sub_cancel_left] at hat
      exact hat
    cases blanks with
    | nil =>
        have heighth := hchar 8 (by omega)
        have hne : some ':' ≠ some ' ' := by decide
        exact hne heighth
    | cons b blanks =>
        have hninth := hchar 9 (by rw [hlength, List.length_cons]; omega)
        change (blanks ++ [':'] ++ others)[0]? = ((c :: rest).drop length)[0]? at hninth
        have hbehind : (c :: rest).drop length =
            behind.drop ((behind ++ nuls k).takeWhile fun d => d ≠ '"').length := by
          have hcount : length = (pound ++ b :: blanks ++ [':']).length +
              ((behind ++ nuls k).takeWhile fun d => d ≠ '"').length := by
            have hpound : pound.length = 8 := rfl
            rw [hlength]
            simp only [List.length_append, List.length_cons, List.length_nil]
            omega
          rw [hcore, hcount, ← List.drop_drop, List.drop_left]
        obtain ⟨d, hd, hkind⟩ : ∃ d, (blanks ++ [':'] ++ others)[0]? = some d ∧
            (isSpace d = true ∨ d = ':') := by
          cases blanks with
          | nil => exact ⟨':', rfl, Or.inr rfl⟩
          | cons d blanks =>
              have hspace := hblanks d (List.mem_cons_of_mem b List.mem_cons_self)
              exact ⟨d, rfl, Or.inl hspace⟩
        rw [hd, hbehind, ← List.head?_eq_getElem?] at hninth
        have hquote := head_drop_takeWhile hninth.symm
        rw [decide_eq_false_iff_not, not_not] at hquote
        rw [hquote] at hkind
        exact absurd hkind (by decide)

/-- The loop replaces the parameters alone exactly when there is nothing else to match. -/
theorem rewriteColons_pieces
    (pieces : List (Piece Char)) (pre more : List Char) {start : ℕ} (k idx : ℕ)
    (hstart : start ≤ pre.length)
    (hsilent : Silent colonSize (pre.drop start) (source parameterWord pieces ++ nuls k)) :
    rewriteColons (pre ++ source parameterWord pieces ++ nuls k ++ more)
        (pre ++ source parameterWord pieces).length start
        ((pre ++ source parameterWord pieces).length + k) =
      some (pre ++ target parameterToken idx pieces) ↔ Clean colonSize parameterWord pieces := by
  induction pieces generalizing pre more start k idx with
  | nil =>
      rw [source, List.append_nil]
      have hsearch : search colonSize
          (((pre ++ nuls k ++ more).take (pre.length + k)).drop start) = none := by
        rw [source, List.nil_append, Silent, search_nuls] at hsilent
        rw [take_stop, List.drop_append_of_le_length hstart, hsilent]
        rfl
      refine iff_of_true ?_ trivial
      rw [rewriteColons_of_none hsearch, List.append_assoc, List.take_left, target, List.append_nil]
  | cons piece pieces ih =>
      cases piece with
      | kept c =>
          rw [source] at hsilent ⊢
          rw [target, Clean, ← colonSize_append_nuls _ k]
          cases hmatch : colonSize (c :: source parameterWord pieces ++ nuls k) with
          | some length =>
              refine iff_of_false (rewriteColons_stray hstart rfl hsilent hmatch idx) ?_
              simp
          | none =>
              have hpre : start ≤ (pre ++ [c]).length := by
                rw [List.length_append]
                omega
              have hquiet : Silent colonSize ((pre ++ [c]).drop start)
                  (source parameterWord pieces ++ nuls k) := by
                rw [List.drop_append_of_le_length hstart]
                exact hsilent.concat hmatch
              have hrest := ih (pre ++ [c]) more k idx hpre hquiet
              simpa using hrest
      | directive =>
          rw [source, List.append_assoc] at hsilent
          have hfound : search colonSize (parameterWord ++ source parameterWord pieces ++ nuls k) =
              some (0, 10) := by
            rw [List.append_assoc]
            exact search_cons_of_match (colonSize_parameter _)
          have hsearch := search_take_stop more hstart
            (by rw [List.append_assoc]; exact hsilent) hfound
          have hinside : ¬ (pre ++ (parameterWord ++ source parameterWord pieces)).length <
              pre.length := by
            rw [List.length_append]
            omega
          have hstop : (pre ++ (parameterWord ++ source parameterWord pieces)).length + k =
              (pre ++ parameterToken 0 ++ source parameterWord pieces).length + (k + 1) := by
            have hword : parameterWord.length = 11 := rfl
            have htoken : (parameterToken 0).length = 10 := rfl
            simp only [List.length_append]
            omega
          have hpre : pre.length + 10 = (pre ++ parameterToken 0).length := by
            rw [List.length_append]
            rfl
          have hquiet : Silent colonSize ((pre ++ parameterToken 0).drop (pre.length + 10))
              (source parameterWord pieces ++ nuls (k + 1)) := by
            rw [hpre, List.drop_length]
            exact silent_nil _
          rw [source, target, Clean, rewriteColons_of_some hsearch, Nat.add_sub_cancel' hstart,
            if_neg hinside, storeAt_parameter, hstop, ← List.append_assoc]
          exact ih _ _ _ _ hpre.le hquiet

end ArtdaqDatabase
