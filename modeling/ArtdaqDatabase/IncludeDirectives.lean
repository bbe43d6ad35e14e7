import ArtdaqDatabase.IncludeWriting

/-!
# Include directives both ways

A generated text with its include parameters marked, and what the two loops make of a text
that is read and of one that is generated.
-/

namespace ArtdaqDatabase

open LeftmostSearch

/-! ## Marked parameters -/

def keptText (text : List Char) : List (Piece Char) :=
  text.map .kept

theorem source_append (word : List Char) (pieces more : List (Piece Char)) :
    source word (pieces ++ more) = source word pieces ++ source word more := by
  induction pieces with
  | nil => rfl
  | cons piece pieces ih => cases piece <;> simp [source, ih]

theorem source_keptText (word text : List Char) : source word (keptText text) = text := by
  induction text with
  | nil => rfl
  | cons c text ih => rw [keptText, List.map_cons, source, ← keptText, ih]

/-- The quoted file of an include parameter. -/
def includedFile (key : FclKey) (value : FclValue) : Option (List Char) :=
  match value with
  | .string text annotation =>
      match text.toList with
      | '"' :: file => if key.key = "#include" then some (file ++ annotationText annotation) else none
      | _ => none
  | _ => none

mutual

/-- The text of a value with the include parameters inside it marked. -/
def valuePieces : FclValue → List (Piece Char)
  | .table atoms annotation =>
      keptText ['\x7b', '\n'] ++ atomPieces atoms ++ keptText (['\n', '\x7d'] ++ annotationText annotation)
  | .sequence values annotation =>
      keptText ['['] ++ elementPieces values ++ keptText ([']'] ++ annotationText annotation)
  | .string text annotation => keptText (generateValue (.string text annotation))
  | .decimal text annotation => keptText (generateValue (.decimal text annotation))
  | .integer number annotation => keptText (generateValue (.integer number annotation))
  | .boolean flag annotation => keptText (generateValue (.boolean flag annotation))

def elementPieces : List FclValue → List (Piece Char)
  | [] => []
  | [value] => valuePieces value
  | value :: next :: values => valuePieces value ++ keptText [',', ' '] ++ elementPieces (next :: values)

def atomPieces : List Atom → List (Piece Char)
  | [] => []
  | (key, value) :: atoms =>
      (match includedFile key value with
        | some file => keptText (commentText key) ++ .directive :: keptText file
        | none => keptText (generateKey key ++ [':', ' ']) ++ valuePieces value) ++ atomPieces atoms

end

/-- The text of tables with the include parameters marked. -/
def parameters (tables : FhiclTables) : List (Piece Char) :=
  (if tables.prolog = [] then []
    else keptText "BEGIN_PROLOG\n".toList ++ atomPieces tables.prolog ++
      keptText "\nEND_PROLOG\n".toList) ++
  atomPieces tables.main

theorem generate_included {key : FclKey} {value : FclValue} {file : List Char}
    (h : includedFile key value = some file) :
    generateKey key ++ ':' :: ' ' :: generateValue value =
      commentText key ++ (parameterWord ++ file) := by
  unfold includedFile at h
  split at h
  · rename_i text annotation
    split at h
    · rename_i rest htext
      split at h
      · rename_i hkey
        cases h
        rw [generateKey, generateValue, htext, hkey, List.append_assoc]
        rfl
      · cases h
    · cases h
  · cases h

mutual

theorem source_valuePieces (value : FclValue) :
    source parameterWord (valuePieces value) = generateValue value := by
  cases value with
  | table atoms annotation =>
      rw [valuePieces, source_append, source_append, source_keptText, source_keptText,
        source_atomPieces atoms, generateValue]
      simp
  | sequence values annotation =>
      rw [valuePieces, source_append, source_append, source_keptText, source_keptText,
        source_elementPieces values, generateValue]
      simp
  | string text annotation => exact source_keptText _ _
  | decimal text annotation => exact source_keptText _ _
  | integer number annotation => exact source_keptText _ _
  | boolean flag annotation => exact source_keptText _ _

theorem source_elementPieces (values : List FclValue) :
    source parameterWord (elementPieces values) = generateValues values := by
  cases values with
  | nil => rfl
  | cons value values =>
      cases values with
      | nil =>
          rw [elementPieces, generateValues]
          exact source_valuePieces value
      | cons next values =>
          rw [elementPieces, generateValues, source_append, source_append, source_keptText,
            source_valuePieces value, source_elementPieces (next :: values)]
          simp

theorem source_atomPieces (atoms : List Atom) :
    source parameterWord (atomPieces atoms) = generateAtoms atoms := by
  cases atoms with
  | nil => rfl
  | cons atom atoms =>
      obtain ⟨key, value⟩ := atom
      rw [atomPieces, generateAtoms, source_append, source_atomPieces atoms]
      split
      · rename_i file hfile
        rw [source_append, source_keptText, source, source_keptText, ← generate_included hfile]
      · rw [source_append, source_keptText, source_valuePieces value]
        simp

end

theorem source_parameters (tables : FhiclTables) :
    source parameterWord (parameters tables) = generate tables := by
  rw [parameters, generate, source_append, source_atomPieces]
  split
  · rfl
  · rw [source_append, source_append, source_keptText, source_keptText, source_atomPieces]

/-- The generated text with the prefixes of its include parameters rewritten, and nothing else. -/
def rewrittenParameters (tables : FhiclTables) : List Char :=
  target parameterToken 0 (parameters tables)

/-- The rewriting at the end of `write_data`. -/
def rewriteGenerated (buffer : List Char) : Option (List Char) :=
  rewriteColons (buffer ++ ['\x00']) buffer.length 0 buffer.length

/-- Only the prefixes of the include parameters are rewritten exactly when nothing else matches. -/
theorem rewriteGenerated_iff_clean (tables : FhiclTables) :
    rewriteGenerated (generate tables) = some (rewrittenParameters tables) ↔
      Clean colonSize parameterWord (parameters tables) := by
  have hpieces := rewriteColons_pieces (parameters tables) [] ['\x00'] 0 0 (Nat.zero_le 0)
    (silent_nil _)
  rw [List.nil_append, List.nil_append, source_parameters] at hpieces
  simpa [rewriteGenerated, rewrittenParameters, nuls] using hpieces

/-- An include that is exported is a parameter of this kind. -/
theorem includedFile_of_includeAtom {data : Value} {atom : Atom} (h : includeAtom data = .ok atom) :
    (includedFile atom.1 atom.2).isSome = true := by
  unfold includeAtom at h
  rw [bind_eq_ok] at h
  obtain ⟨text, -, h⟩ := h
  cases h
  simp [includedFile, quoted_]

/-! ## The two loops -/

/-- In a text that is read and in one that is generated, the directives alone are rewritten
exactly when nothing else looks like one, and in the first case the room that was reserved is
enough. -/
theorem includes_rewritten_iff
    {capacity : ℕ} (text : List Char) (hreserve : text.length + 1024 ≤ capacity)
    (tables : FhiclTables) :
    (rewriteIncludes capacity text 0 0 = some (rewrittenIncludes text) ↔
      Clean includeSize directiveWord (directives true text) ∧
        text.length + growth 0 (directiveCount (directives true text)) ≤ capacity) ∧
    (rewriteGenerated (generate tables) = some (rewrittenParameters tables) ↔
      Clean colonSize parameterWord (parameters tables)) :=
  ⟨rewriteIncludes_iff_clean (by omega), rewriteGenerated_iff_clean tables⟩

/-- One directive in front of a parameter. -/
def oneInclude : List Char :=
  "#include \"a.fcl\"\nx: 1\n".toList

theorem includes_rewritten_iff_one :
    (rewriteIncludes 2000 oneInclude 0 0 = some (rewrittenIncludes oneInclude) ↔
      Clean includeSize directiveWord (directives true oneInclude) ∧
        oneInclude.length + growth 0 (directiveCount (directives true oneInclude)) ≤ 2000) ∧
    (rewriteGenerated (generate ⟨[], []⟩) = some (rewrittenParameters ⟨[], []⟩) ↔
      Clean colonSize parameterWord (parameters ⟨[], []⟩)) := by
  apply includes_rewritten_iff
  decide

/-- A comment that speaks of includes. -/
def mentioned : List Char :=
  "# the #include lines\nx: \"y\"\n".toList

/-- The comment is cut up to the next quote, and the parameter behind it is lost. -/
example : rewriteIncludes 2000 mentioned 0 0 =
    some "# the fhicl_pound_include_0:\"y\"\n".toList := by decide +kernel

theorem mentioned_not_kept :
    rewriteIncludes 2000 mentioned 0 0 ≠ some (rewrittenIncludes mentioned) := by
  decide +kernel

end ArtdaqDatabase
