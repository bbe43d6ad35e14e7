import ArtdaqDatabase.FhiclText
import Mathlib.Data.List.Infix
import Mathlib.Data.PNat.Basic

/-!
# From FHiCL to JSON

The value tree that the FHiCL library parses, and `fcl2jsondb`, which splits it
into data and metadata.  A tree is taken as the library hands it over: tables are
maps, so their keys are distinct, and lines are counted from one.
-/

namespace ArtdaqDatabase

open OrderedTable

/-! ## The parsed tree -/

/-- The tags of `value_tag` that mark a scalar. -/
inductive ScalarTag where
  | unknown
  | nil
  | string
  | boolean
  | number
  | complex
  | tableid
  deriving DecidableEq

/-- `value_tag`. -/
inductive ValueTag where
  | scalar (tag : ScalarTag)
  | sequence
  | table
  deriving DecidableEq

inductive Protection where
  | none
  | protectIgnore
  | protectError
  deriving DecidableEq

/-- What a value carries beside its contents; `line` is the number that ends its
`src_info`. -/
structure ValueInfo where
  inProlog : Bool
  protection : Protection
  line : ℕ+

/-- `extended_value`. -/
inductive ExtendedValue where
  | scalar (tag : ScalarTag) (rawValue : String) (info : ValueInfo)
  | sequence (values : List ExtendedValue) (info : ValueInfo)
  | table (members : List (String × ExtendedValue)) (info : ValueInfo)

def ExtendedValue.tag : ExtendedValue → ValueTag
  | .scalar tag _ _ => .scalar tag
  | .sequence _ _ => .sequence
  | .table _ _ => .table

def ExtendedValue.info : ExtendedValue → ValueInfo
  | .scalar _ _ info => info
  | .sequence _ info => info
  | .table _ info => info

mutual

/-- What the library promises of a tree: names are not empty and not repeated. -/
def ExtendedValue.Legal : ExtendedValue → Prop
  | .scalar _ _ _ => True
  | .sequence values _ => valuesLegal values
  | .table members _ => (members.map Prod.fst).Nodup ∧ membersLegal members

def valuesLegal : List ExtendedValue → Prop
  | [] => True
  | v :: values => v.Legal ∧ valuesLegal values

def membersLegal : List (String × ExtendedValue) → Prop
  | [] => True
  | (key, v) :: members => key ≠ "" ∧ v.Legal ∧ membersLegal members

end

/-! ## Names of tags and protections -/

/-- `tag_as_string`. -/
def tagAsString : ValueTag → String
  | .scalar .unknown => "unknown"
  | .scalar .nil => "nil"
  | .scalar .string => "string"
  | .scalar .boolean => "bool"
  | .scalar .number => "number"
  | .scalar .complex => "complex"
  | .sequence => "sequence"
  | .table => "table"
  | .scalar .tableid => "tableid"

/-- `string_as_tag`. -/
def stringAsTag (name : String) : Except Failure ValueTag :=
  if name = "nil" then .ok (.scalar .nil)
  else if name = "string" || name = "string_unquoted" || name = "string_singlequoted" ||
      name = "string_doublequoted" then .ok (.scalar .string)
  else if name = "bool" then .ok (.scalar .boolean)
  else if name = "number" then .ok (.scalar .number)
  else if name = "complex" then .ok (.scalar .complex)
  else if name = "sequence" then .ok .sequence
  else if name = "table" then .ok .table
  else if name = "tableid" then .ok (.scalar .tableid)
  else .error (.fhiclError ("FHiCL atom type \"" ++ name ++ "\" is not implemented."))

/-- `protection_as_string`. -/
def protectionAsString : Protection → String
  | .none => "@none"
  | .protectIgnore => "@protect_ignore"
  | .protectError => "@protect_error"

/-- The type of a string in the metadata names its quotation marks. -/
def QuotationType.typeName : QuotationType → String
  | .none => "string_unquoted"
  | .single => "string_singlequoted"
  | .double => "string_doublequoted"

/-! ## Comments -/

/-- `comments_t`: the comment that stands on a line. -/
abbrev Comments := List (ℕ × String)

def annotationAt (comments : Comments) (line : ℕ) : String :=
  if line < 1 then "" else (lookup line comments).getD ""

def commentAt (comments : Comments) (line : ℕ) : String :=
  let comment := annotationAt comments line
  if comment.toList.head? ≠ some '/' ∧ ¬"#include ".toList <:+: comment.toList then comment
  else ""

def addCommentAnnotation (field text : String) (object : Object) : Object :=
  set field (.string (if text = "" then "" else toJsonString text)) object

/-! ## Splitting a tree -/

/-- `extra_opts`. -/
structure ExtraOpts where
  readProlog : Bool := false
  readMain : Bool := true

def ExtraOpts.selects (opts : ExtraOpts) (v : ExtendedValue) : Bool :=
  (v.info.inProlog && opts.readProlog) || (!v.info.inProlog && opts.readMain)

/-- The type, the comment and the annotation of a value. -/
def commentedMetadata (comments : Comments) (key : String) (tag : ValueTag) (line : ℕ) : Object :=
  let object := set "type" (.string (tagAsString tag)) []
  if "fhicl_pound_include_".toList <:+: key.toList then
    set "annotation" (.string "") (set "comment" (.string "") object)
  else
    let object := addCommentAnnotation "comment" (commentAt comments (line - 1)) object
    if tag = .table then object
    else addCommentAnnotation "annotation" (annotationAt comments line) object

/-- The metadata of a value before its kind is looked at. -/
def commonMetadata (comments : Comments) (key : String) (tag : ValueTag) (info : ValueInfo) :
    Object :=
  let object := commentedMetadata comments key tag info.line
  if info.protection = .none then object
  else set "protection" (.string (protectionAsString info.protection)) object

/-- A string loses its quotation marks, which go into its type. -/
def scalarData (tag : ScalarTag) (rawValue : String) : String :=
  if tag = .string then toJsonString (dequote rawValue) else rawValue

def scalarMetadata (tag : ScalarTag) (rawValue : String) (object : Object) : Object :=
  if tag = .string then set "type" (.string (quotationType rawValue).typeName) object else object

abbrev Datapair := (String × Value) × (String × Value)

/-- The exceptions of a conversion leave it as one of the library's, which names
the key. -/
def cantInsert {α : Type} (key : String) (body : Except Failure α) : Except Failure α :=
  body.mapError fun _ => .fhiclError key

section

variable (comments : Comments) (opts : ExtraOpts)

mutual

/-- `fcl2jsondb::operator datapair_t`. -/
def fcl2jsondb (key : String) : ExtendedValue → Except Failure Datapair
  | .scalar tag rawValue info => cantInsert key do
      confirm (key ≠ "")
      confirm (comments ≠ [])
      return ((key, .string (scalarData tag rawValue)), (key, .object
        (scalarMetadata tag rawValue (commonMetadata comments key (.scalar tag) info))))
  | .sequence values info => cantInsert key do
      confirm (key ≠ "")
      confirm (comments ≠ [])
      let pairs ← sequencePairs 0 values
      return ((key, .array (pairs.map fun pair => pair.1.2)), (key, .object
        (set "children" (.object (pairs.map Prod.snd))
          (commonMetadata comments key .sequence info))))
  | .table members info => cantInsert key do
      confirm (key ≠ "")
      confirm (comments ≠ [])
      let pairs ← tablePairs members
      return ((key, .object (pairs.map Prod.fst)), (key, .object
        (set "children" (.object (pairs.map Prod.snd))
          (commonMetadata comments key .table info))))

/-- The elements of a sequence go by their positions. -/
def sequencePairs (idx : ℕ) : List ExtendedValue → Except Failure (List Datapair)
  | [] => return []
  | v :: values => do
      let pair ← fcl2jsondb (toString idx) v
      let pairs ← sequencePairs (idx + 1) values
      return pair :: pairs

def tablePairs : List (String × ExtendedValue) → Except Failure (List Datapair)
  | [] => return []
  | (key, v) :: members => do
      if opts.selects v then
        let pair ← fcl2jsondb key v
        let pairs ← tablePairs members
        return pair :: pairs
      else
        tablePairs members

end

/-! ## What is split off -/

mutual

def dataOf : ExtendedValue → Value
  | .scalar tag rawValue _ => .string (scalarData tag rawValue)
  | .sequence values _ => .array (elementsData values)
  | .table members _ => .object (membersData members)

def elementsData : List ExtendedValue → List Value
  | [] => []
  | v :: values => dataOf v :: elementsData values

def membersData : List (String × ExtendedValue) → Object
  | [] => []
  | (key, v) :: members =>
      if opts.selects v then (key, dataOf v) :: membersData members else membersData members

end

mutual

def metadataOf (key : String) : ExtendedValue → Object
  | .scalar tag rawValue info =>
      scalarMetadata tag rawValue (commonMetadata comments key (.scalar tag) info)
  | .sequence values info =>
      set "children" (.object (elementsMetadata 0 values))
        (commonMetadata comments key .sequence info)
  | .table members info =>
      set "children" (.object (membersMetadata members))
        (commonMetadata comments key .table info)

def elementsMetadata (idx : ℕ) : List ExtendedValue → Object
  | [] => []
  | v :: values =>
      (toString idx, .object (metadataOf (toString idx) v)) :: elementsMetadata (idx + 1) values

def membersMetadata : List (String × ExtendedValue) → Object
  | [] => []
  | (key, v) :: members =>
      if opts.selects v then
        (key, .object (metadataOf key v)) :: membersMetadata members
      else membersMetadata members

end

/-- The pair that a legal tree is split into. -/
def splitPair (key : String) (v : ExtendedValue) : Datapair :=
  ((key, dataOf opts v), (key, .object (metadataOf comments opts key v)))

theorem digits_toString_nat (n : ℕ) :
    ∃ d tail, (toString n).toList = d :: tail ∧ ∀ c ∈ (toString n).toList, c.isDigit = true := by
  have hlist : (toString n).toList = Nat.toDigits 10 n := by
    rw [Nat.toString_eq_repr, Nat.toList_repr]
  have ⟨d, tail, hhead⟩ :=
    List.exists_cons_of_ne_nil (Nat.toDigits_ne_nil (n := n) (b := 10))
  refine ⟨d, tail, hlist.trans hhead, fun c hc => ?_⟩
  rw [hlist] at hc
  exact Nat.isDigit_of_mem_toDigits (by decide) (by decide) hc

theorem toString_nat_ne_empty (n : ℕ) : toString n ≠ "" := by
  have ⟨d, tail, hhead, _⟩ := digits_toString_nat n
  intro h
  rw [h] at hhead
  cases hhead

/-- The position of an element is no word. -/
theorem toString_nat_ne (n : ℕ) {name : String}
    (hname : name.toList.head?.all (fun c => !c.isDigit) = true) : toString n ≠ name := by
  have ⟨d, tail, hhead, hdigits⟩ := digits_toString_nat n
  rintro rfl
  have hd : d.isDigit = true := hdigits d (by rw [hhead]; exact List.mem_cons_self)
  rw [hhead, List.head?_cons, Option.all_some, hd] at hname
  cases hname

section

variable {comments}

mutual

/-- A legal tree is split without an error. -/
theorem fcl2jsondb_legal
    (hcomments : comments ≠ []) {key : String} (hkey : key ≠ "") (v : ExtendedValue)
    (hv : v.Legal) :
    fcl2jsondb comments opts key v = .ok (splitPair comments opts key v) := by
  have hkey' : confirm (key ≠ "") = .ok () := by simp [hkey]
  have hcomments' : confirm (comments ≠ []) = .ok () := by simp [hcomments]
  cases v with
  | scalar tag rawValue info =>
      rw [fcl2jsondb, hkey', hcomments']
      rfl
  | sequence values info =>
      obtain ⟨pairs, hpairs, hdata, hmetadata⟩ := sequencePairs_legal hcomments 0 values hv
      rw [fcl2jsondb, hkey', hcomments', hpairs, splitPair, dataOf, metadataOf, ← hdata,
        ← hmetadata]
      rfl
  | table members info =>
      obtain ⟨pairs, hpairs, hdata, hmetadata⟩ := tablePairs_legal hcomments members hv.2
      rw [fcl2jsondb, hkey', hcomments', hpairs, splitPair, dataOf, metadataOf, ← hdata,
        ← hmetadata]
      rfl

theorem sequencePairs_legal
    (hcomments : comments ≠ []) (idx : ℕ) (values : List ExtendedValue)
    (hvalues : valuesLegal values) :
    ∃ pairs, sequencePairs comments opts idx values = .ok pairs ∧
      (pairs.map fun pair => pair.1.2) = elementsData opts values ∧
      pairs.map Prod.snd = elementsMetadata comments opts idx values := by
  cases values with
  | nil => exact ⟨[], rfl, rfl, rfl⟩
  | cons v values =>
      have hhead := fcl2jsondb_legal hcomments (toString_nat_ne_empty idx) v hvalues.1
      obtain ⟨pairs, hpairs, hdata, hmetadata⟩ :=
        sequencePairs_legal hcomments (idx + 1) values hvalues.2
      refine ⟨splitPair comments opts (toString idx) v :: pairs, ?_, ?_, ?_⟩
      · rw [sequencePairs, hhead, hpairs]
        rfl
      · simp [splitPair, elementsData, hdata]
      · simp [splitPair, elementsMetadata, hmetadata]

theorem tablePairs_legal
    (hcomments : comments ≠ []) (members : List (String × ExtendedValue))
    (hmembers : membersLegal members) :
    ∃ pairs, tablePairs comments opts members = .ok pairs ∧
      pairs.map Prod.fst = membersData opts members ∧
      pairs.map Prod.snd = membersMetadata comments opts members := by
  cases members with
  | nil => exact ⟨[], rfl, rfl, rfl⟩
  | cons member members =>
      obtain ⟨key, v⟩ := member
      obtain ⟨hkey, hv, htail⟩ := hmembers
      obtain ⟨pairs, hpairs, hdata, hmetadata⟩ := tablePairs_legal hcomments members htail
      have hhead := fcl2jsondb_legal hcomments hkey v hv
      by_cases hselects : opts.selects v
      · refine ⟨splitPair comments opts key v :: pairs, ?_, ?_, ?_⟩
        · rw [tablePairs, if_pos hselects, hhead, hpairs]
          rfl
        · simp [splitPair, membersData, hselects, hdata]
        · simp [splitPair, membersMetadata, hselects, hmetadata]
      · refine ⟨pairs, ?_, ?_, ?_⟩
        · rw [tablePairs, if_neg hselects, hpairs]
        · simp [membersData, hselects, hdata]
        · simp [membersMetadata, hselects, hmetadata]

end

end

/-! ## The metadata of a node -/

/-- The type that the metadata of a value name. -/
def typeNameOf : ExtendedValue → String
  | .scalar tag rawValue _ =>
      if tag = .string then (quotationType rawValue).typeName else tagAsString (.scalar tag)
  | .sequence _ _ => "sequence"
  | .table _ _ => "table"

/-- What the export reads from the metadata of a node, its children aside. -/
structure IsNode (o : Object) (typeName : String) (protection : Protection) : Prop where
  type : lookup "type" o = some (.string typeName)
  comment : ∃ text, lookup "comment" o = some (.string (toJsonString text))
  annotation : typeName ≠ "table" →
    ∃ text, lookup "annotation" o = some (.string (toJsonString text))
  protection : lookup "protection" o =
    if protection = .none then none else some (.string (protectionAsString protection))
  once : count "protection" o ≤ 1

theorem IsNode.set
    {o : Object} {typeName : String} {protection : Protection} (h : IsNode o typeName protection)
    {k : String} (hk : k ∉ ["type", "comment", "annotation", "protection"]) (v : Value) :
    IsNode (set k v o) typeName protection := by
  simp only [List.mem_cons, List.not_mem_nil, or_false, not_or] at hk
  obtain ⟨htype, hcomment, hannotation, hprotection⟩ := hk
  constructor
  · rw [lookup_set_of_ne (Ne.symm htype), h.type]
  · rw [lookup_set_of_ne (Ne.symm hcomment)]
    exact h.comment
  · rw [lookup_set_of_ne (Ne.symm hannotation)]
    exact h.annotation
  · rw [lookup_set_of_ne (Ne.symm hprotection), h.protection]
  · rw [count_set_of_ne (Ne.symm hprotection)]
    exact h.once

theorem addCommentAnnotation_eq (field text : String) (object : Object) :
    addCommentAnnotation field text object = set field (.string (toJsonString text)) object := by
  unfold addCommentAnnotation
  split
  · rename_i h
    rw [h, toJsonString_empty]
  · rfl

theorem isNode_commentedMetadata
    (comments : Comments) (key : String) (tag : ValueTag) (line : ℕ) :
    IsNode (commentedMetadata comments key tag line) (tagAsString tag) .none := by
  have hempty : ∃ text, toJsonString text = "" := ⟨"", rfl⟩
  unfold commentedMetadata
  simp only [addCommentAnnotation_eq]
  split_ifs with hinclude htable
  · constructor <;> simp [OrderedTable.set, lookup, count, hempty]
  · subst htable
    constructor <;> simp [OrderedTable.set, lookup, count, tagAsString]
  · constructor <;> simp [OrderedTable.set, lookup, count]

theorem isNode_commonMetadata
    (comments : Comments) (key : String) (tag : ValueTag) (info : ValueInfo) :
    IsNode (commonMetadata comments key tag info) (tagAsString tag) info.protection := by
  have h := isNode_commentedMetadata comments key tag info.line
  unfold commonMetadata
  split_ifs with hprotection
  · rw [hprotection]
    exact h
  · constructor
    · rw [lookup_set_of_ne (by decide), h.type]
    · rw [lookup_set_of_ne (by decide)]
      exact h.comment
    · rw [lookup_set_of_ne (by decide)]
      exact h.annotation
    · simp [hprotection]
    · rw [count_set_self_of_absent (by simpa using h.protection)]

theorem isNode_scalarMetadata
    {o : Object} {tag : ScalarTag} {protection : Protection}
    (h : IsNode o (tagAsString (.scalar tag)) protection) (rawValue : String) (info : ValueInfo) :
    IsNode (scalarMetadata tag rawValue o) (typeNameOf (.scalar tag rawValue info))
      protection := by
  unfold scalarMetadata
  simp only [typeNameOf]
  split_ifs with hstring
  · subst hstring
    constructor
    · exact lookup_set_self _ _ _
    · rw [lookup_set_of_ne (by decide)]
      exact h.comment
    · rw [lookup_set_of_ne (by decide)]
      exact fun _ => h.annotation (by decide)
    · rw [lookup_set_of_ne (by decide), h.protection]
    · rw [count_set_of_ne (by decide)]
      exact h.once
  · exact h

theorem isNode_metadataOf
    (comments : Comments) (opts : ExtraOpts) (key : String) (v : ExtendedValue) :
    IsNode (metadataOf comments opts key v) (typeNameOf v) v.info.protection := by
  cases v with
  | scalar tag rawValue info =>
      exact isNode_scalarMetadata (isNode_commonMetadata comments key _ info) rawValue info
  | sequence values info =>
      exact (isNode_commonMetadata comments key .sequence info).set (by decide) _
  | table members info =>
      exact (isNode_commonMetadata comments key .table info).set (by decide) _

/-! ## The children of a node -/

theorem keys_elementsMetadata
    (comments : Comments) (opts : ExtraOpts) (idx : ℕ) (values : List ExtendedValue) :
    (elementsMetadata comments opts idx values).map Prod.fst =
      (List.range' idx values.length).map fun i => toString i := by
  induction values generalizing idx with
  | nil => rfl
  | cons v values ih =>
      rw [elementsMetadata, List.map_cons, ih, List.length_cons, List.range'_succ, List.map_cons]

theorem toString_nat_injective : Function.Injective fun n : ℕ => toString n := by
  intro m n h
  have hdigits : Nat.toDigits 10 m = Nat.toDigits 10 n := by
    simpa [Nat.toString_eq_repr, Nat.repr] using congrArg String.toList h
  rw [← Nat.ofDigitChars_ten_toDigits (n := m), hdigits, Nat.ofDigitChars_ten_toDigits]

theorem nodup_elementsMetadata
    (comments : Comments) (opts : ExtraOpts) (idx : ℕ) (values : List ExtendedValue) :
    ((elementsMetadata comments opts idx values).map Prod.fst).Nodup := by
  rw [keys_elementsMetadata]
  exact List.Nodup.map toString_nat_injective List.nodup_range'

theorem keys_membersMetadata
    (comments : Comments) (opts : ExtraOpts) (members : List (String × ExtendedValue)) :
    ((membersMetadata comments opts members).map Prod.fst).Sublist (members.map Prod.fst) := by
  induction members with
  | nil => exact List.Sublist.slnil
  | cons member members ih =>
      obtain ⟨key, v⟩ := member
      rw [membersMetadata]
      split
      · exact ih.cons_cons key
      · exact ih.cons key

end

end ArtdaqDatabase
