import ArtdaqDatabase.FhiclTree

/-!
# From JSON to FHiCL

`json2fcldb`, which joins data and metadata into the tree that the FHiCL
generator prints.  A sequence or a table is filled element by element, and a key
that is missing on the way ends the filling without an error.
-/

namespace ArtdaqDatabase

open OrderedTable

/-- `fcl::key_t`. -/
structure FclKey where
  key : String
  comment : Option String
  deriving DecidableEq

/-- `fcl::value_t`, with its annotation in every case. -/
inductive FclValue where
  | table (atoms : List (FclKey × FclValue)) ( annotation : Option String)
  | sequence (values : List FclValue) ( annotation : Option String)
  | string (text : String) ( annotation : Option String)
  | decimal (text : String) ( annotation : Option String)
  | integer (number : ℤ) ( annotation : Option String)
  | boolean (flag : Bool) ( annotation : Option String)

/-- `fcl::atom_t`. -/
abbrev Atom := FclKey × FclValue

def FclValue.annotated ( annotation : Option String) : FclValue → FclValue
  | .table atoms _ => .table atoms annotation
  | .sequence values _ => .sequence values annotation
  | .string text _ => .string text annotation
  | .decimal text _ => .decimal text annotation
  | .integer number _ => .integer number annotation
  | .boolean flag _ => .boolean flag annotation

/-! ## Texts -/

/-- The key that an include directive is stored under starts with this. -/
def includeName : String :=
  "fhicl_pound_include"

def isIncludeKey (key : String) : Bool :=
  includeName.toList.isPrefixOf key.toList

/-- The text of a string under its type. -/
def stringText (typeName value : String) : String :=
  if typeName = "string" then guessQuotes value
  else if typeName = "string_unquoted" then value
  else if typeName = "string_singlequoted" then quoted_ value '\''
  else if typeName = "string_doublequoted" then quoted_ value '"'
  else guessQuotes value

/-- The text of a string that stands in a sequence. -/
def elementText (typeName value : String) : String :=
  if typeName = "number" then value else stringText typeName value

/-! ## Filling -/

/-- A container is filled until a conversion throws; what was pushed before stays
when the exception is `std::out_of_range`. -/
def fillWith {α : Type} : List (Except Failure α) → Except Failure (List α)
  | [] => .ok []
  | .ok a :: rest => (fun pushed => a :: pushed) <$> fillWith rest
  | .error (.outOfRange _) :: _ => .ok []
  | .error failure :: _ => .error failure

/-- `json2fcldb::operator value_t`, given what `operator atom_t` makes of the same
arguments. -/
def json2fcldbValue (data metadata : Value) (atom : Except Failure Atom) :
    Except Failure FclValue :=
  match data with
  | .boolean flag => .ok (.boolean flag none)
  | .integer number => .ok (.integer number none)
  | .decimal text => .ok (.decimal text none)
  | .string text => do
      let metadataObject ← metadata.getObject
      let typeName ← stringAt "type" metadataObject
      return .string (elementText typeName (fromJsonString text)) none
  | .object _ => atom.map Prod.snd
  | .array _ => atom.map Prod.snd

/-- The value of a scalar of a table. -/
def scalarAtom (tag : ScalarTag) (typeName : String) (data : Value) : Except Failure FclValue :=
  match tag with
  | .unknown | .nil | .tableid | .complex => do
      let text ← data.getString
      return .string text none
  | .string => do
      let text ← data.getString
      return .string (stringText typeName (fromJsonString text)) none
  | .boolean =>
      match data with
      | .string text => .ok (.string text none)
      | other => do
          let flag ← other.getBool
          return .boolean flag none
  | .number =>
      match data with
      | .string text => .ok (.string text none)
      | .integer number => .ok (.integer number none)
      | .decimal text => .ok (.decimal text none)
      | _ => .error .badGet

/-- The protection of a parameter goes behind its name. -/
def atomName (key : String) (metadataObject : Object) : Except Failure String :=
  if count "protection" metadataObject = 1 then do
    let protection ← stringAt "protection" metadataObject
    return if protection ≠ "@none" then key ++ " " ++ protection else key
  else
    return key

def keyComment (comment : String) : String :=
  if "#include ".toList <:+: comment.toList then "" else comment

/-- The name, the comment and the annotation that complete an atom. -/
def finishAtom (key : String) (metadataObject : Object) (annotated : Bool) (value : FclValue) :
    Except Failure Atom := do
  let comment ← stringAt "comment" metadataObject
  let name ← atomName key metadataObject
  let fclKey : FclKey := ⟨name, some (keyComment (fromJsonString comment))⟩
  if annotated then
    let annotation ← stringAt "annotation" metadataObject
    return (fclKey, value.annotated (some (fromJsonString annotation)))
  else
    return (fclKey, value)

/-- The atom of an include directive. -/
def includeAtom (data : Value) : Except Failure Atom := do
  let text ← data.getString
  return (⟨"#include", some " "⟩, .string (quoted_ text '"') (some ""))

/-- `json2fcldb::operator atom_t`, given what the elements or the members of the
data are converted to. -/
def atomFrom (key : String) (metadata data : Value)
    (elements : Object → List (Except Failure FclValue))
    (members : Object → List (Except Failure Atom)) : Except Failure Atom := do
  let metadataObject ← metadata.getObject
  let metadataType ← stringAt "type" metadataObject
  let overrideComment := metadataType = "table" && isString data
  let typeName := if overrideComment then "string" else metadataType
  if isIncludeKey key then
    includeAtom data
  else
    let type ← stringAsTag typeName
    match type with
    | .scalar tag =>
        let value ← scalarAtom tag typeName data
        finishAtom key metadataObject (!overrideComment) value
    | .sequence =>
        let _ ← data.getArray
        let pushed ← fillWith
          (match objectAt "children" metadataObject with
          | .ok children => elements children
          | .error failure => [.error failure])
        finishAtom key metadataObject true (.sequence pushed none)
    | .table =>
        let _ ← data.getObject
        let pushed ← fillWith
          (match objectAt "children" metadataObject with
          | .ok children => members children
          | .error failure => [.error failure])
        finishAtom key metadataObject false (.table pushed none)

mutual

def json2fcldbAtom (key : String) (metadata : Value) : Value → Except Failure Atom
  | .array values =>
      atomFrom key metadata (.array values) (fun children => elementResults children 0 values)
        fun _ => []
  | .object members =>
      atomFrom key metadata (.object members) (fun _ => [])
        fun children => memberResults children members
  | .string text => atomFrom key metadata (.string text) (fun _ => []) fun _ => []
  | .decimal text => atomFrom key metadata (.decimal text) (fun _ => []) fun _ => []
  | .integer number => atomFrom key metadata (.integer number) (fun _ => []) fun _ => []
  | .boolean flag => atomFrom key metadata (.boolean flag) (fun _ => []) fun _ => []

def elementResults (children : Object) (idx : ℕ) : List Value → List (Except Failure FclValue)
  | [] => []
  | v :: values =>
      (do
        let metadata ← valueAt (toString idx) children
        json2fcldbValue v metadata (json2fcldbAtom (toString idx) metadata v)) ::
      elementResults children (idx + 1) values

def memberResults (children : Object) : List (String × Value) → List (Except Failure Atom)
  | [] => []
  | (key, v) :: members =>
      (do
        let metadata ← valueAt key children
        json2fcldbAtom key metadata v) ::
      memberResults children members

end

/-! ## Filling -/

section

variable {α : Type}

@[simp]
theorem fillWith_ok (a : α) (rest : List (Except Failure α)) :
    fillWith (.ok a :: rest) = (fun pushed => a :: pushed) <$> fillWith rest := rfl

theorem fillWith_error (failure : Failure) (rest : List (Except Failure α)) :
    fillWith (.error failure :: rest) = .ok [] ∨
      ∃ e, fillWith (.error failure :: rest) = .error e := by
  cases failure <;> simp [fillWith]

theorem fillWith_cons_eq_ok
    {result : Except Failure α} {rest : List (Except Failure α)} {a : α} {pushed : List α} :
    fillWith (result :: rest) = .ok (a :: pushed) ↔ result = .ok a ∧ fillWith rest = .ok pushed := by
  cases result with
  | error failure =>
      rcases fillWith_error failure rest with h | ⟨e, h⟩ <;> simp [h]
  | ok b =>
      rw [fillWith_ok]
      cases fillWith rest <;> simp [Functor.map, Except.map]

end

/-! ## Atoms of a node -/

/-- The protection of a parameter is written behind its name. -/
def keyText (key : String) (protection : Protection) : String :=
  if protection = .none then key else key ++ " " ++ protectionAsString protection

/-- The text of a scalar that stands in a table. -/
def tableText (tag : ScalarTag) (rawValue : String) : String :=
  if tag = .string then (quotationType rawValue).quote (dequote rawValue) else rawValue

/-- The text of a scalar that stands in a sequence. -/
def sequenceText (tag : ScalarTag) (rawValue : String) : String :=
  match tag with
  | .string => (quotationType rawValue).quote (dequote rawValue)
  | .number => fromJsonString rawValue
  | _ => guessQuotes (fromJsonString rawValue)

theorem stringText_typeName (quotation : QuotationType) (value : String) :
    stringText quotation.typeName value = quotation.quote value := by
  cases quotation <;> rfl

theorem elementText_typeName (quotation : QuotationType) (value : String) :
    elementText quotation.typeName value = quotation.quote value := by
  cases quotation <;> rfl

section

variable {o : Object} {typeName key : String} {protection : Protection}

theorem count_protection (h : IsNode o typeName protection) :
    count "protection" o = if protection = .none then 0 else 1 := by
  have hprotection := h.protection
  split
  · rename_i hnone
    rw [if_pos hnone] at hprotection
    exact count_eq_zero_iff.2 hprotection
  · rename_i hnone
    rw [if_neg hnone] at hprotection
    have := count_pos_of_lookup hprotection
    have := h.once
    omega

theorem protectionAsString_ne (hprotection : protection ≠ .none) :
    protectionAsString protection ≠ "@none" := by
  cases protection with
  | none => exact absurd rfl hprotection
  | protectIgnore => decide
  | protectError => decide

theorem atomName_node (h : IsNode o typeName protection) (key : String) :
    atomName key o = .ok (keyText key protection) := by
  unfold atomName keyText
  rw [count_protection h]
  by_cases hnone : protection = .none
  · rw [if_pos hnone, if_pos hnone, if_neg (by decide)]
    rfl
  · have hprotection := h.protection
    rw [if_neg hnone] at hprotection
    rw [if_neg hnone, if_neg hnone, if_pos rfl, stringAt_eq_ok.2 hprotection]
    simp [bind, Except.bind, pure, Except.pure, protectionAsString_ne hnone]

theorem finishAtom_node
    (h : IsNode o typeName protection) (key : String) (annotated : Bool)
    (hannotated : annotated = true → typeName ≠ "table") :
    ∃ comment annotation, ∀ value, finishAtom key o annotated value =
      .ok (⟨keyText key protection, comment⟩,
        if annotated then value.annotated annotation else value) := by
  have hname := atomName_node h key
  have ⟨c, hc⟩ := h.comment
  have hcomment := stringAt_eq_ok.2 hc
  cases annotated with
  | false =>
      refine ⟨some (keyComment (fromJsonString (toJsonString c))), none, fun value => ?_⟩
      rw [finishAtom, hcomment, hname]
      rfl
  | true =>
      have ⟨a, ha⟩ := h.annotation (hannotated rfl)
      have hannotation := stringAt_eq_ok.2 ha
      refine ⟨some (keyComment (fromJsonString (toJsonString c))),
        some (fromJsonString (toJsonString a)), fun value => ?_⟩
      rw [finishAtom, hcomment, hname]
      simp only [if_true, hannotation]
      rfl

/-! ## Each kind of value -/

theorem stringAsTag_typeNameOf {tag : ScalarTag} (htag : tag ≠ .unknown) (rawValue : String)
    (info : ValueInfo) :
    stringAsTag (typeNameOf (.scalar tag rawValue info)) = .ok (.scalar tag) := by
  cases tag with
  | unknown => exact absurd rfl htag
  | string => cases h : quotationType rawValue <;> simp [typeNameOf, h] <;> rfl
  | _ => rfl

theorem typeNameOf_scalar_ne_table (tag : ScalarTag) (rawValue : String) (info : ValueInfo) :
    typeNameOf (.scalar tag rawValue info) ≠ "table" := by
  cases tag with
  | string => cases h : quotationType rawValue <;> simp [typeNameOf, h, QuotationType.typeName]
  | _ => simp [typeNameOf, tagAsString]

theorem scalarAtom_node {tag : ScalarTag} (htag : tag ≠ .unknown) (rawValue : String)
    (info : ValueInfo) :
    scalarAtom tag (typeNameOf (.scalar tag rawValue info)) (.string (scalarData tag rawValue)) =
      .ok (.string (tableText tag rawValue) none) := by
  cases tag with
  | unknown => exact absurd rfl htag
  | string =>
      simp [scalarAtom, typeNameOf, scalarData, tableText, Value.getString, bind, Except.bind,
        pure, Except.pure, stringText_typeName, fromJsonString_toJsonString]
  | _ => rfl

section

variable (hinclude : isIncludeKey key = false)

include hinclude

/-- A scalar of a table is exported under its own text. -/
theorem json2fcldbAtom_scalar
    {tag : ScalarTag} {rawValue : String} {info : ValueInfo}
    (h : IsNode o (typeNameOf (.scalar tag rawValue info)) protection) (htag : tag ≠ .unknown) :
    ∃ comment annotation,
      json2fcldbAtom key (.object o) (.string (scalarData tag rawValue)) =
        .ok (⟨keyText key protection, comment⟩,
          .string (tableText tag rawValue) annotation) := by
  have hne := typeNameOf_scalar_ne_table tag rawValue info
  obtain ⟨comment, annotation, hfinish⟩ := finishAtom_node h key true fun _ => hne
  refine ⟨comment, annotation, ?_⟩
  have htype := stringAt_eq_ok.2 h.type
  simp only [json2fcldbAtom, atomFrom, Value.getObject, bind, Except.bind, htype, hne, decide_false,
    Bool.false_and, Bool.false_eq_true, if_false, hinclude, stringAsTag_typeNameOf htag,
    scalarAtom_node htag, Bool.not_false, hfinish]
  rfl

/-- There is no name that the export knows for an unknown tag. -/
theorem json2fcldbAtom_unknown
    {rawValue : String} {info : ValueInfo}
    (h : IsNode o (typeNameOf (.scalar ScalarTag.unknown rawValue info)) protection)
    (text : String) :
    ∃ message, json2fcldbAtom key (.object o) (.string text) = .error (.fhiclError message) := by
  have htype := stringAt_eq_ok.2 h.type
  have hname : typeNameOf (.scalar ScalarTag.unknown rawValue info) = "unknown" := rfl
  rw [hname] at htype
  have ⟨message, htag⟩ : ∃ message, stringAsTag "unknown" = .error (.fhiclError message) :=
    ⟨_, rfl⟩
  have hne : ("unknown" : String) ≠ "table" := by decide
  refine ⟨message, ?_⟩
  simp only [json2fcldbAtom, atomFrom, Value.getObject, bind, Except.bind, htype, hinclude, hne,
    decide_false, Bool.false_and, Bool.false_eq_true, if_false, htag]

theorem json2fcldbAtom_sequence
    (h : IsNode o "sequence" protection) {children : Object}
    (hchildren : lookup "children" o = some (.object children)) (values : List Value) :
    ∃ comment annotation, json2fcldbAtom key (.object o) (.array values) =
      (fun pushed => (⟨keyText key protection, comment⟩, .sequence pushed annotation)) <$>
        fillWith (elementResults children 0 values) := by
  obtain ⟨comment, annotation, hfinish⟩ := finishAtom_node h key true fun _ => by decide
  refine ⟨comment, annotation, ?_⟩
  have htype := stringAt_eq_ok.2 h.type
  have hchildren' := objectAt_eq_ok.2 hchildren
  simp only [json2fcldbAtom, atomFrom, Value.getObject, bind, Except.bind, htype, hinclude, hchildren']
  cases fillWith (elementResults children 0 values) with
  | error failure => rfl
  | ok pushed => exact hfinish (.sequence pushed none)

theorem json2fcldbAtom_table
    (h : IsNode o "table" protection) {children : Object}
    (hchildren : lookup "children" o = some (.object children)) (members : Object) :
    ∃ comment, json2fcldbAtom key (.object o) (.object members) =
      (fun pushed => (⟨keyText key protection, comment⟩, .table pushed none)) <$>
        fillWith (memberResults children members) := by
  obtain ⟨comment, annotation, hfinish⟩ := finishAtom_node h key false fun h => by cases h
  refine ⟨comment, ?_⟩
  have htype := stringAt_eq_ok.2 h.type
  have hchildren' := objectAt_eq_ok.2 hchildren
  simp only [json2fcldbAtom, atomFrom, Value.getObject, bind, Except.bind, htype, hinclude, isString,
    Bool.and_false, hchildren']
  cases fillWith (memberResults children members) with
  | error failure => rfl
  | ok pushed => exact hfinish (.table pushed none)

end

/-- An include directive is exported from its text alone. -/
theorem json2fcldbAtom_include
    (h : IsNode o typeName protection) (hinclude : isIncludeKey key = true) (data : Value) :
    json2fcldbAtom key (.object o) data = includeAtom data := by
  have htype := stringAt_eq_ok.2 h.type
  cases data <;>
    simp only [json2fcldbAtom, atomFrom, Value.getObject, bind, Except.bind, htype, hinclude, if_true]

theorem json2fcldbValue_scalar
    {tag : ScalarTag} {rawValue : String} {info : ValueInfo}
    (h : IsNode o (typeNameOf (.scalar tag rawValue info)) protection)
    (atom : Except Failure Atom) :
    json2fcldbValue (.string (scalarData tag rawValue)) (.object o) atom =
      .ok (.string (sequenceText tag rawValue) none) := by
  have htype := stringAt_eq_ok.2 h.type
  simp only [json2fcldbValue, Value.getObject, bind, Except.bind, htype]
  cases tag with
  | string =>
      simp [typeNameOf, scalarData, sequenceText, pure, Except.pure, elementText_typeName,
        fromJsonString_toJsonString]
  | _ =>
      simp [typeNameOf, tagAsString, scalarData, sequenceText, elementText, stringText, pure,
        Except.pure]

end

end ArtdaqDatabase
