import ArtdaqDatabase.GuiConversion
import ArtdaqDatabase.FhiclExport
import ArtdaqDatabase.JsonWriter

/-!
# Through the editor and back

A tree that was split by `fcl2jsondb` is joined for the editor and split again.
The data come back as they were.  The metadata lose the protections, and those of
a table or a sequence inside a sequence come to stand beside the member `children`
instead of in it.
-/

namespace ArtdaqDatabase

open OrderedTable

/-! ## Parameters with the name of a structural member -/

mutual

/-- An object inside the value has a member of that name. -/
def Value.mentions (name : String) : Value → Bool
  | .object members => membersMention name members
  | .array values => valuesMention name values
  | _ => false

def valuesMention (name : String) : List Value → Bool
  | [] => false
  | v :: values => v.mentions name || valuesMention name values

def membersMention (name : String) : List (String × Value) → Bool
  | [] => false
  | (key, v) :: members => key = name || v.mentions name || membersMention name members

end

/-! ## Metadata that present a tree -/

def childrenMetadata (comments : Comments) (opts : ExtraOpts) : ExtendedValue → Option Value
  | .scalar _ _ _ => none
  | .sequence values _ => some (.object (elementsMetadata comments opts 0 values))
  | .table members _ => some (.object (membersMetadata comments opts members))

/-- The metadata of a value: only the member `children` is an object. -/
structure Presents (comments : Comments) (opts : ExtraOpts) (o : Object) (v : ExtendedValue) :
    Prop where
  node : ∃ protection, IsNode o (typeNameOf v) protection
  plain : ∀ k p, lookup k o = some (.object p) → k = "children"
  children : ∀ w, childrenMetadata comments opts v = some w → lookup "children" o = some w

/-- Every member is a string. -/
def AllStrings (o : Object) : Prop :=
  ∀ k v, lookup k o = some v → ∃ text, v = .string text

theorem AllStrings.set {o : Object} (h : AllStrings o) (k text : String) :
    AllStrings (set k (.string text) o) := by
  intro k' v hlookup
  rw [lookup_set] at hlookup
  split at hlookup
  · cases hlookup
    exact ⟨text, rfl⟩
  · exact h k' v hlookup

theorem allStrings_nil : AllStrings [] := by
  intro k v hlookup
  cases hlookup

theorem allStrings_commonMetadata
    (comments : Comments) (key : String) (tag : ValueTag) (info : ValueInfo) :
    AllStrings (commonMetadata comments key tag info) := by
  have hcommented : AllStrings (commentedMetadata comments key tag info.line) := by
    unfold commentedMetadata
    simp only [addCommentAnnotation_eq]
    split_ifs
    · exact ((allStrings_nil.set _ _).set _ _).set _ _
    · exact (allStrings_nil.set _ _).set _ _
    · exact ((allStrings_nil.set _ _).set _ _).set _ _
  unfold commonMetadata
  split_ifs
  · exact hcommented
  · exact hcommented.set _ _

/-- The children are the only structured member that is added. -/
theorem presents_children
    {comments : Comments} {opts : ExtraOpts} {o : Object} {v : ExtendedValue}
    {protection : Protection} {children : Object}
    (hnode : IsNode o (typeNameOf v) protection) (hstrings : AllStrings o)
    (hchildren : childrenMetadata comments opts v = some (.object children)) :
    Presents comments opts (set "children" (.object children) o) v := by
  constructor
  · exact ⟨protection, hnode.set (by decide) _⟩
  · intro k p hlookup
    rw [lookup_set] at hlookup
    split at hlookup
    · rename_i hk
      exact hk
    · obtain ⟨text, htext⟩ := hstrings k _ hlookup
      cases htext
  · intro w hw
    rw [lookup_set_self, ← hchildren, hw]

theorem presents_metadataOf
    (comments : Comments) (opts : ExtraOpts) (key : String) (v : ExtendedValue) :
    Presents comments opts (metadataOf comments opts key v) v := by
  cases v with
  | scalar tag rawValue info =>
      have hcommon := allStrings_commonMetadata comments key (.scalar tag) info
      have hstrings : AllStrings (metadataOf comments opts key (.scalar tag rawValue info)) := by
        simp only [metadataOf, scalarMetadata]
        split_ifs
        · exact hcommon.set _ _
        · exact hcommon
      refine ⟨⟨_, isNode_metadataOf comments opts key _⟩, ?_, ?_⟩
      · intro k p hlookup
        have ⟨text, htext⟩ := hstrings k _ hlookup
        cases htext
      · intro w hw
        cases hw
  | sequence values info =>
      exact presents_children (isNode_commonMetadata comments key .sequence info)
        (allStrings_commonMetadata comments key .sequence info) rfl
  | table members info =>
      exact presents_children (isNode_commonMetadata comments key .table info)
        (allStrings_commonMetadata comments key .table info) rfl

/-- A name other than `children` is looked up among the children. -/
theorem metadataChild_of_children
    {comments : Comments} {opts : ExtraOpts} {o children child : Object} {v : ExtendedValue}
    (h : Presents comments opts o v) {name : String} (hempty : name ≠ "")
    (hname : name ≠ "children")
    (hchildren : childrenMetadata comments opts v = some (.object children))
    (hlookup : lookup name children = some (.object child)) :
    metadataChild name o = .ok (some child) := by
  have hconfirm : confirm (name ≠ "") = .ok () := by simp [hempty]
  have hdirect : ∃ failure, objectAt name o = .error failure := by
    cases hat : objectAt name o with
    | error failure => exact ⟨failure, rfl⟩
    | ok p => exact absurd (h.plain name p (objectAt_eq_ok.1 hat)) hname
  obtain ⟨failure, hdirect⟩ := hdirect
  have hat : objectAt "children" o = .ok children := objectAt_eq_ok.2 (h.children _ hchildren)
  have hchild : objectAt name children = .ok child := objectAt_eq_ok.2 hlookup
  rw [metadataChild, hconfirm, hdirect, hat]
  simp only [bind, Except.bind, hchild]
  rfl

/-! ## Metadata of the elements of a sequence -/

def isScalar : ExtendedValue → Bool
  | .scalar _ _ _ => true
  | _ => false

/-- The metadata of an element go where `gui2db` puts them. -/
def addElement (v : ExtendedValue) (key : String) (node metadata : Object) :
    Except Failure Object :=
  if isScalar v then makeChildOfChildren key node metadata
  else .ok (metadata ++ [(key, .object node)])

def addElements (idx : ℕ) : List ExtendedValue → List Object → Object → Except Failure Object
  | v :: values, node :: nodes, metadata => do
      let added ← addElement v (toString idx) node metadata
      addElements (idx + 1) values nodes added
  | _, _, metadata => .ok metadata

/-- The metadata of a sequence before its elements are added. -/
def sequenceStart (comment : String) : Object :=
  [("type", .string "sequence"), ("comment", .string comment), ("annotation", .string "")]

mutual

/-- The metadata that come back for a value: no protection is left. -/
def Regained (opts : ExtraOpts) (node : Object) : ExtendedValue → Prop
  | .scalar tag rawValue info => IsNode node (typeNameOf (.scalar tag rawValue info)) .none
  | .sequence values _ =>
      ∃ comment nodes, ElementsRegained opts nodes values ∧
        addElements 0 values nodes (sequenceStart (toJsonString comment)) = .ok node
  | .table members _ =>
      ∃ comment nodes, MembersRegained opts nodes members ∧
        node = [("type", .string "table"), ("comment", .string (toJsonString comment)),
          ("children", .object nodes)]

def ElementsRegained (opts : ExtraOpts) (nodes : List Object) : List ExtendedValue → Prop
  | [] => nodes = []
  | v :: values =>
      ∃ node rest, nodes = node :: rest ∧ Regained opts node v ∧ ElementsRegained opts rest values

def MembersRegained (opts : ExtraOpts) (nodes : Object) : List (String × ExtendedValue) → Prop
  | [] => nodes = []
  | (key, v) :: members =>
      if opts.selects v then
        ∃ node rest, nodes = (key, .object node) :: rest ∧ Regained opts node v ∧
          MembersRegained opts rest members
      else MembersRegained opts nodes members

end

section

variable {opts : ExtraOpts} {nodes : Object} {key : String} {v : ExtendedValue}
  {members : List (String × ExtendedValue)}

theorem membersRegained_selected (hselects : opts.selects v = true) :
    MembersRegained opts nodes ((key, v) :: members) ↔
      ∃ node rest, nodes = (key, .object node) :: rest ∧ Regained opts node v ∧
        MembersRegained opts rest members := by
  rw [MembersRegained]
  simp only [hselects, if_true]

theorem membersRegained_left_out (hselects : ¬opts.selects v = true) :
    MembersRegained opts nodes ((key, v) :: members) ↔ MembersRegained opts nodes members := by
  rw [MembersRegained]
  simp only [hselects]
  rfl

end

/-! ## The nodes of the editor -/

def scalarGui (typeName key comment annotation : String) (value : Value) : Object :=
  [("type", .string typeName), ("name", .string key), ("comment", .string comment),
    ("value", value), ("annotation", .string annotation)]

def containerGui (typeName key comment : String) (children : List Value) : Object :=
  [("type", .string typeName), ("name", .string key), ("comment", .string comment),
    ("children", .array children)]

section

variable {o : Object} {key : String} {protection : Protection}

theorem db2gui_scalar
    {tag : ScalarTag} {rawValue : String} {info : ValueInfo}
    (h : IsNode o (typeNameOf (.scalar tag rawValue info)) protection) (key text : String) :
    ∃ comment annotation, db2gui key (some o) (.string text) =
      .ok (scalarGui (typeNameOf (.scalar tag rawValue info)) key (toJsonString comment)
        (toJsonString annotation) (.string text)) := by
  have ⟨comment, hcomment⟩ := h.comment
  have ⟨ annotation, hannotation⟩ := h.annotation (typeNameOf_scalar_ne_table tag rawValue info)
  have htype := stringAt_eq_ok.2 h.type
  have hcomment := stringAt_eq_ok.2 hcomment
  have hannotation := stringAt_eq_ok.2 hannotation
  refine ⟨comment, annotation, ?_⟩
  simp [db2gui, scalarGuiNode, describedAs, stringValueOf, annotationOf, htype, hcomment,
    hannotation, bind, Except.bind, pure, Except.pure, guiNode, scalarGui, OrderedTable.set]

theorem db2gui_table
    (h : IsNode o "table" protection) (key : String) {members : Object} {children : List Value}
    (hchildren : db2guiMembers (some o) members = .ok children) :
    ∃ comment, db2gui key (some o) (.object members) =
      .ok (containerGui "table" key (toJsonString comment) children) := by
  have ⟨comment, hcomment⟩ := h.comment
  have htype := stringAt_eq_ok.2 h.type
  have hcomment := stringAt_eq_ok.2 hcomment
  refine ⟨comment, ?_⟩
  simp [db2gui, describedAs, stringValueOf, htype, hcomment, hchildren, bind, Except.bind, pure,
    Except.pure, guiNode, containerGui, OrderedTable.set]

theorem db2gui_sequence
    (h : IsNode o "sequence" protection) (key : String) {values : List Value}
    {children : List Value} (hchildren : db2guiElements (some o) 0 values = .ok children) :
    ∃ comment, db2gui key (some o) (.array values) =
      .ok (containerGui "sequence" key (toJsonString comment) children) := by
  have ⟨comment, hcomment⟩ := h.comment
  have htype := stringAt_eq_ok.2 h.type
  have hcomment := stringAt_eq_ok.2 hcomment
  refine ⟨comment, ?_⟩
  simp [db2gui, describedAs, stringValueOf, htype, hcomment, hchildren, bind, Except.bind, pure,
    Except.pure, guiNode, containerGui, OrderedTable.set]

/-- Every node starts from its comment. -/
theorem db2gui_comment
    {v : Value} {g : Object} (h : db2gui key (some o) v = .ok g) :
    ∃ comment, lookup "comment" o = some (.string comment) := by
  have hcomment : ∃ comment, stringAt "comment" o = .ok comment := by
    cases hat : stringAt "comment" o with
    | ok comment => exact ⟨comment, rfl⟩
    | error failure =>
        cases v <;>
          simp [db2gui, scalarGuiNode, describedAs, stringValueOf, hat, bind, Except.bind] at h
  obtain ⟨comment, hcomment⟩ := hcomment
  exact ⟨comment, stringAt_eq_ok.1 hcomment⟩

/-! ## Taking a node apart -/

def scalarNode (typeName comment annotation : String) : Object :=
  [("type", .string typeName), ("comment", .string comment),
    ("annotation", .string (annotate annotation))]

/-- The types that stand for a container. -/
def containerTypes : List String :=
  ["sequence", "array", "table", "object"]

theorem gui2dbValue_scalar
    {typeName : String} (htype : typeName ∉ containerTypes) (key comment annotation : String)
    (value : Value) (nodes : DbNodes) :
    gui2dbValue (.object (scalarGui typeName key comment annotation value)) nodes =
      scalarChild typeName (scalarGui typeName key comment annotation value) nodes := by
  simp only [containerTypes, List.mem_cons, List.not_mem_nil, or_false, not_or] at htype
  obtain ⟨h1, h2, h3, h4⟩ := htype
  simp [gui2dbValue, scalarGui, guiTypeName, count, stringAt, valueAt, lookup, Value.getString,
    bind, Except.bind, pure, Except.pure, h1, h2, h3, h4]

theorem scalarChild_member
    (typeName key comment annotation : String) (value : Value) (members metadata : Object) :
    scalarChild typeName (scalarGui typeName key comment annotation value)
        ⟨.object members, metadata⟩ =
      .ok ⟨.object (members ++ [(key, value)]),
        metadata ++ [(key, .object (scalarNode typeName comment annotation))]⟩ := by
  simp [scalarChild, scalarGui, scalarNode, stringAt, valueAt, lookup, Value.getString, bind,
    Except.bind, pure, Except.pure]

theorem scalarChild_element
    (typeName key comment annotation : String) (value : Value) (values : List Value)
    (metadata : Object) :
    scalarChild typeName (scalarGui typeName key comment annotation value)
        ⟨.array values, metadata⟩ =
      (fun added => ⟨.array (values ++ [value]), added⟩) <$>
        makeChildOfChildren key (scalarNode typeName comment annotation) metadata := by
  simp only [scalarChild, scalarGui, scalarNode, stringAt, valueAt, lookup, Value.getString, bind,
    Except.bind, pure, Except.pure]
  rfl

theorem gui2dbValue_table
    (key comment : String) {children : List Value} {data : Value} {metadata : Object}
    (hchildren : gui2db children ⟨.object [], []⟩ = .ok ⟨data, metadata⟩) (nodes : DbNodes) :
    gui2dbValue (.object (containerGui "table" key comment children)) nodes =
      (fun filled => ⟨filled, nodes.metadata ++ [(key, .object [("type", .string "table"),
        ("comment", .string comment), ("children", .object metadata)])]⟩) <$>
        makeChild key data nodes.data := by
  simp [gui2dbValue, containerGui, guiTypeName, count, stringAt, valueAt, lookup, Value.getString,
    bind, Except.bind, pure, Except.pure, tableChild, gui2dbChildren, hchildren]
  rfl

theorem gui2dbValue_sequence
    (key comment : String) {children : List Value} {data : Value} {metadata : Object}
    (hchildren : gui2db children ⟨.array [], sequenceStart comment⟩ = .ok ⟨data, metadata⟩)
    (nodes : DbNodes) :
    gui2dbValue (.object (containerGui "sequence" key comment children)) nodes =
      (fun filled => ⟨filled, nodes.metadata ++ [(key, .object metadata)]⟩) <$>
        makeChild key data nodes.data := by
  unfold sequenceStart at hchildren
  simp [gui2dbValue, containerGui, guiTypeName, count, stringAt, valueAt, lookup, Value.getString,
    bind, Except.bind, pure, Except.pure, sequenceChild, gui2dbChildren, hchildren]
  rfl

theorem typeNameOf_scalar_notMem (tag : ScalarTag) (rawValue : String) (info : ValueInfo) :
    typeNameOf (.scalar tag rawValue info) ∉ containerTypes := by
  cases tag with
  | string =>
      cases h : quotationType rawValue <;>
        simp [typeNameOf, h, QuotationType.typeName, containerTypes]
  | _ => simp [typeNameOf, tagAsString, containerTypes]

theorem isNode_scalarNode
    (tag : ScalarTag) (rawValue : String) (info : ValueInfo) (comment annotation : String) :
    IsNode (scalarNode (typeNameOf (.scalar tag rawValue info)) (toJsonString comment)
      (toJsonString annotation)) (typeNameOf (.scalar tag rawValue info)) .none := by
  have ⟨rest, hrest⟩ := annotate_toJsonString annotation
  have htype := typeNameOf_scalar_ne_table tag rawValue info
  unfold scalarNode
  rw [hrest]
  constructor <;> simp [lookup, count]

/-! ## Adding elements -/

/-- The children are missing or an object. -/
def ChildrenReady (metadata : Object) : Prop :=
  ∀ w, lookup "children" metadata = some w → ∃ children, w = .object children

def childrenIn (metadata : Object) : Object :=
  match lookup "children" metadata with
  | some (.object children) => children
  | _ => []

theorem makeChildOfChildren_eq
    {metadata : Object} (h : ChildrenReady metadata) (key : String) (node : Object) :
    makeChildOfChildren key node metadata =
      .ok (set "children" (.object (childrenIn metadata ++ [(key, .object node)])) metadata) := by
  unfold makeChildOfChildren childrenIn
  cases hlookup : lookup "children" metadata with
  | none =>
      have hat : objectAt "children" (set "children" (.object []) metadata) = .ok [] :=
        objectAt_eq_ok.2 (lookup_set_self _ _ _)
      simp [count_eq_zero_iff.2 hlookup, hat, bind, Except.bind, pure, Except.pure]
  | some w =>
      obtain ⟨children, hchildren⟩ := h w hlookup
      subst hchildren
      have hpos := count_pos_of_lookup hlookup
      have hat : objectAt "children" metadata = .ok children := objectAt_eq_ok.2 hlookup
      rw [if_neg (by omega)]
      simp [hat, bind, Except.bind, pure, Except.pure]

theorem ChildrenReady.set (metadata children : Object) :
    ChildrenReady (set "children" (.object children) metadata) := by
  intro w hw
  rw [lookup_set_self] at hw
  cases hw
  exact ⟨children, rfl⟩

theorem ChildrenReady.append
    {metadata : Object} (h : ChildrenReady metadata) {key : String} (hkey : key ≠ "children")
    (v : Value) : ChildrenReady (metadata ++ [(key, v)]) := by
  intro w hw
  rw [lookup_append] at hw
  simp only [lookup, if_neg hkey, Option.or_none] at hw
  exact h w hw

theorem IsNode.append
    {typeName : String} (h : IsNode o typeName protection) {key : String}
    (hkey : key ∉ ["type", "comment", "annotation", "protection"]) (v : Value) :
    IsNode (o ++ [(key, v)]) typeName protection := by
  simp only [List.mem_cons, List.not_mem_nil, or_false, not_or] at hkey
  obtain ⟨htype, hcomment, hannotation, hprotection⟩ := hkey
  have hlookup : ∀ k, key ≠ k → lookup k (o ++ [(key, v)]) = lookup k o := by
    intro k hk
    rw [lookup_append]
    simp [lookup, hk]
  constructor
  · rw [hlookup _ htype, h.type]
  · rw [hlookup _ hcomment]
    exact h.comment
  · rw [hlookup _ hannotation]
    exact h.annotation
  · rw [hlookup _ hprotection, h.protection]
  · have honce := h.once
    have hcount : count "protection" (o ++ [(key, v)]) = count "protection" o := by
      simp [count, hprotection]
    omega

theorem toString_nat_ne_children (idx : ℕ) : toString idx ≠ "children" :=
  toString_nat_ne idx (by decide)

theorem toString_nat_notMem (idx : ℕ) :
    toString idx ∉ ["type", "comment", "annotation", "protection"] := by
  simp only [List.mem_cons, List.not_mem_nil, or_false, not_or]
  exact ⟨toString_nat_ne idx (by decide), toString_nat_ne idx (by decide),
    toString_nat_ne idx (by decide), toString_nat_ne idx (by decide)⟩

theorem isRawText_toString_nat (idx : ℕ) : isRawText (toString idx).toList = true := by
  have ⟨d, tail, _, hdigits⟩ := digits_toString_nat idx
  generalize (toString idx).toList = text at hdigits
  induction text with
  | nil => rfl
  | cons c text ih =>
      have hc : c.isDigit = true := hdigits c List.mem_cons_self
      have hslash : c ≠ '\\' := by
        rintro rfl
        exact absurd hc (by decide)
      have hquote : c ≠ '"' := by
        rintro rfl
        exact absurd hc (by decide)
      rw [isRawText_plain hslash hquote]
      exact ih fun d hd => hdigits d (List.mem_cons_of_mem c hd)

theorem membersReadable_set
    {metadata : Object} (h : membersReadable metadata) {key : String} {v : Value}
    (hkey : isRawText key.toList = true) (hv : v.Readable) :
    membersReadable (set key v metadata) := by
  rw [membersReadable_iff] at h ⊢
  intro m hm
  rcases mem_set hm with rfl | hm
  · exact ⟨hkey, hv⟩
  · exact h m hm

theorem membersReadable_single
    {key : String} {v : Value} (hkey : isRawText key.toList = true) (hv : v.Readable) :
    membersReadable [(key, v)] :=
  ⟨hkey, hv, trivial⟩

theorem membersReadable_childrenIn {metadata : Object} (h : membersReadable metadata) :
    membersReadable (childrenIn metadata) := by
  unfold childrenIn
  split
  · rename_i children hlookup
    exact (membersReadable_iff.1 h _ (mem_of_lookup hlookup)).2
  · trivial

/-- What one element does to the metadata of its sequence. -/
theorem addElement_ok
    {metadata : Object} (h : ChildrenReady metadata) (v : ExtendedValue) (idx : ℕ) (node : Object) :
    ∃ added, addElement v (toString idx) node metadata = .ok added ∧ ChildrenReady added ∧
      (∀ typeName, IsNode metadata typeName .none → IsNode added typeName .none) ∧
      (membersReadable metadata → membersReadable node → membersReadable added) := by
  have hkey := isRawText_toString_nat idx
  unfold addElement
  cases isScalar v with
  | true =>
      refine ⟨_, makeChildOfChildren_eq h (toString idx) node, ChildrenReady.set _ _,
        fun typeName hnode => hnode.set (by decide) _, fun hmetadata hnode => ?_⟩
      apply membersReadable_set hmetadata (by decide)
      exact membersReadable_append.2
        ⟨membersReadable_childrenIn hmetadata, membersReadable_single hkey hnode⟩
  | false =>
      refine ⟨_, rfl, h.append (toString_nat_ne_children idx) _,
        fun typeName hnode => hnode.append (toString_nat_notMem idx) _,
        fun hmetadata hnode => ?_⟩
      exact membersReadable_append.2 ⟨hmetadata, membersReadable_single hkey hnode⟩

theorem addElements_ok
    (values : List ExtendedValue) (idx : ℕ) (nodes : List Object) {metadata : Object}
    (h : ChildrenReady metadata) :
    ∃ added, addElements idx values nodes metadata = .ok added ∧
      (∀ typeName, IsNode metadata typeName .none → IsNode added typeName .none) ∧
      (membersReadable metadata → (∀ node ∈ nodes, membersReadable node) →
        membersReadable added) := by
  induction values generalizing idx nodes metadata with
  | nil => exact ⟨metadata, rfl, fun _ h => h, fun h _ => h⟩
  | cons v values ih =>
      cases nodes with
      | nil => exact ⟨metadata, rfl, fun _ h => h, fun h _ => h⟩
      | cons node nodes =>
          have ⟨first, hfirst, hready, hnode, hreadable⟩ := addElement_ok h v idx node
          have ⟨added, hadded, hnode', hreadable'⟩ := ih (idx + 1) nodes hready
          refine ⟨added, ?_, fun typeName h => hnode' _ (hnode _ h), fun hmetadata hnodes => ?_⟩
          · rw [addElements, hfirst]
            exact hadded
          · exact hreadable' (hreadable hmetadata (hnodes node List.mem_cons_self))
              fun node hmem => hnodes node (List.mem_cons_of_mem _ hmem)

end

/-! ## A value and its metadata come back -/

/-- The node `g` that a value is shown as, and the metadata `node` it comes back with. -/
structure Regains (opts : ExtraOpts) (key : String) (o : Object) (v : ExtendedValue)
    (g node : Object) : Prop where
  gui : db2gui key (some o) (dataOf opts v) = .ok g
  member : ∀ members metadata, gui2dbValue (.object g) ⟨.object members, metadata⟩ =
    .ok ⟨.object (members ++ [(key, dataOf opts v)]), metadata ++ [(key, .object node)]⟩
  element : ∀ values metadata, gui2dbValue (.object g) ⟨.array values, metadata⟩ =
    (fun added => ⟨.array (values ++ [dataOf opts v]), added⟩) <$> addElement v key node metadata
  regained : Regained opts node v
  readable : isRawText key.toList = true → (dataOf opts v).Readable →
    membersReadable g ∧ membersReadable node

theorem isRawText_typeNameOf (tag : ScalarTag) (rawValue : String) (info : ValueInfo) :
    isRawText (typeNameOf (.scalar tag rawValue info)).toList = true := by
  cases tag with
  | string =>
      simp only [typeNameOf, if_true]
      cases quotationType rawValue <;> decide
  | _ =>
      simp only [typeNameOf, reduceCtorEq, if_false, tagAsString]
      decide

section

variable {comments : Comments} {opts : ExtraOpts}

theorem regains_scalar
    (key : String) {o : Object} {tag : ScalarTag} {rawValue : String} {info : ValueInfo}
    {protection : Protection}
    (h : IsNode o (typeNameOf (.scalar tag rawValue info)) protection) :
    ∃ g node, Regains opts key o (.scalar tag rawValue info) g node := by
  have ⟨comment, annotation, hgui⟩ := db2gui_scalar h key (scalarData tag rawValue)
  have htype := typeNameOf_scalar_notMem tag rawValue info
  refine ⟨_, scalarNode (typeNameOf (.scalar tag rawValue info)) (toJsonString comment)
    (toJsonString annotation), hgui, ?_, ?_, ?_, ?_⟩
  · intro members metadata
    rw [gui2dbValue_scalar htype, scalarChild_member]
    rfl
  · intro values metadata
    rw [gui2dbValue_scalar htype, scalarChild_element]
    rfl
  · exact isNode_scalarNode tag rawValue info comment annotation
  · intro hkey hdata
    have hname := isRawText_typeNameOf tag rawValue info
    have hcomment := isRawText_toJsonString comment
    have hannotation := isRawText_toJsonString annotation
    have ⟨rest, hrest⟩ := annotate_toJsonString annotation
    constructor
    · exact ⟨by decide, hname, by decide, hkey, by decide, hcomment, by decide, hdata, by decide,
        hannotation, trivial⟩
    · unfold scalarNode
      rw [hrest]
      exact ⟨by decide, hname, by decide, hcomment, by decide, isRawText_toJsonString rest, trivial⟩

theorem regains_sequence
    (key : String) {o : Object} {values : List ExtendedValue} {info : ValueInfo}
    {protection : Protection} (h : IsNode o "sequence" protection)
    {children : List Value} {nodes : List Object}
    (hgui : db2guiElements (some o) 0 (elementsData opts values) = .ok children)
    (hback : ∀ metadata, gui2db children ⟨.array [], metadata⟩ =
      (fun added => ⟨.array (elementsData opts values), added⟩) <$>
        addElements 0 values nodes metadata)
    (hnodes : ElementsRegained opts nodes values)
    (hreadable : valuesReadable (elementsData opts values) →
      valuesReadable children ∧ ∀ node ∈ nodes, membersReadable node) :
    ∃ g node, Regains opts key o (.sequence values info) g node := by
  have ⟨comment, hnode⟩ := db2gui_sequence h key hgui
  have hready : ChildrenReady (sequenceStart (toJsonString comment)) := by
    intro w hw
    cases hw
  have ⟨added, hadded, _, haddedReadable⟩ := addElements_ok values 0 nodes hready
  have hfilled := hback (sequenceStart (toJsonString comment))
  rw [hadded] at hfilled
  refine ⟨_, added, hnode, ?_, ?_, ⟨comment, nodes, hnodes, hadded⟩, ?_⟩
  · intro members metadata
    rw [gui2dbValue_sequence key _ hfilled]
    rfl
  · intro more metadata
    rw [gui2dbValue_sequence key _ hfilled]
    rfl
  · intro hkey hdata
    have ⟨hchildren, hall⟩ := hreadable hdata
    have hcomment := isRawText_toJsonString comment
    constructor
    · exact ⟨by decide, (by decide : isRawText "sequence".toList = true), by decide, hkey,
        by decide, hcomment, by decide, hchildren, trivial⟩
    · refine haddedReadable ?_ hall
      exact ⟨by decide, (by decide : isRawText "sequence".toList = true), by decide, hcomment,
        by decide, (by decide : isRawText "".toList = true), trivial⟩

theorem regains_table
    (key : String) {o : Object} {members : List (String × ExtendedValue)} {info : ValueInfo}
    {protection : Protection} (h : IsNode o "table" protection)
    {children : List Value} {nodes : Object}
    (hgui : db2guiMembers (some o) (membersData opts members) = .ok children)
    (hback : gui2db children ⟨.object [], []⟩ = .ok ⟨.object (membersData opts members), nodes⟩)
    (hnodes : MembersRegained opts nodes members)
    (hreadable : membersReadable (membersData opts members) →
      valuesReadable children ∧ membersReadable nodes) :
    ∃ g node, Regains opts key o (.table members info) g node := by
  have ⟨comment, hnode⟩ := db2gui_table h key hgui
  refine ⟨_, _, hnode, ?_, ?_, ⟨comment, nodes, hnodes, rfl⟩, ?_⟩
  · intro more metadata
    rw [gui2dbValue_table key _ hback]
    rfl
  · intro values metadata
    rw [gui2dbValue_table key _ hback]
    rfl
  · intro hkey hdata
    have ⟨hchildren, hall⟩ := hreadable hdata
    have hcomment := isRawText_toJsonString comment
    constructor
    · exact ⟨by decide, (by decide : isRawText "table".toList = true), by decide, hkey,
        by decide, hcomment, by decide, hchildren, trivial⟩
    · exact ⟨by decide, (by decide : isRawText "table".toList = true), by decide, hcomment,
        by decide, hall, trivial⟩

theorem membersReadable_cons {key : String} {v : Value} {members : Object} :
    membersReadable ((key, v) :: members) ↔
      isRawText key.toList = true ∧ v.Readable ∧ membersReadable members :=
  Iff.rfl

theorem keys_membersMetadata_of_mentions
    (members : List (String × ExtendedValue)) (name : String)
    (h : membersMention name (membersData opts members) = false) :
    ∀ key ∈ (membersMetadata comments opts members).map Prod.fst, key ≠ name := by
  induction members with
  | nil => simp [membersMetadata]
  | cons member members ih =>
      obtain ⟨key, v⟩ := member
      rw [membersMetadata]
      rw [membersData] at h
      split
      · rename_i hselects
        rw [if_pos hselects, membersMention] at h
        simp only [Bool.or_eq_false_iff, decide_eq_false_iff_not] at h
        intro key' hkey'
        rw [List.map_cons, List.mem_cons] at hkey'
        rcases hkey' with rfl | hkey'
        · exact h.1.1
        · exact ih h.2 key' hkey'
      · rename_i hselects
        rw [if_neg hselects] at h
        exact ih h

theorem keys_ne_empty (members : List (String × ExtendedValue)) (h : membersLegal members) :
    ∀ key ∈ members.map Prod.fst, key ≠ "" := by
  induction members with
  | nil => simp
  | cons member members ih =>
      intro key hkey
      rw [List.map_cons, List.mem_cons] at hkey
      rcases hkey with rfl | hkey
      · exact h.1
      · exact ih h.2.2 key hkey

/-- A child of a node is found unless its name is `children`. -/
theorem childrenMetadata_found
    {o children : Object} {v : ExtendedValue} (h : Presents comments opts o v)
    (hchildren : childrenMetadata comments opts v = some (.object children))
    (hnodup : (children.map Prod.fst).Nodup) (hempty : ∀ key ∈ children.map Prod.fst, key ≠ "") :
    ∀ key child, key ≠ "children" → (key, Value.object child) ∈ children →
      metadataChild key o = .ok (some child) := by
  intro key child hname hmem
  have hkey : key ∈ children.map Prod.fst := List.mem_map.2 ⟨_, hmem, rfl⟩
  exact metadataChild_of_children h (hempty key hkey) hname hchildren (lookup_of_mem hnodup hmem)

/-- The elements of a sequence are all found. -/
theorem elementsMetadata_found
    {o : Object} {values : List ExtendedValue} {info : ValueInfo}
    (h : Presents comments opts o (.sequence values info)) :
    ∀ key child, (key, Value.object child) ∈ elementsMetadata comments opts 0 values →
      metadataChild key o = .ok (some child) := by
  have hkeys : ∀ key ∈ (elementsMetadata comments opts 0 values).map Prod.fst,
      ∃ i : ℕ, key = toString i := by
    intro key hkey
    rw [keys_elementsMetadata, List.mem_map] at hkey
    obtain ⟨i, -, rfl⟩ := hkey
    exact ⟨i, rfl⟩
  have hfound := childrenMetadata_found h rfl (nodup_elementsMetadata comments opts 0 values)
    fun key hkey => by
      obtain ⟨i, rfl⟩ := hkeys key hkey
      exact toString_nat_ne_empty i
  intro key child hmem
  obtain ⟨i, rfl⟩ := hkeys key (List.mem_map.2 ⟨_, hmem, rfl⟩)
  exact hfound _ child (toString_nat_ne_children i) hmem

theorem membersMetadata_found
    {o : Object} {members : List (String × ExtendedValue)} {info : ValueInfo}
    (h : Presents comments opts o (.table members info))
    (hlegal : (ExtendedValue.table members info).Legal) :
    ∀ key child, key ≠ "children" →
      (key, Value.object child) ∈ membersMetadata comments opts members →
      metadataChild key o = .ok (some child) := by
  have hkeys := keys_membersMetadata comments opts members
  exact childrenMetadata_found h rfl (hlegal.1.sublist hkeys)
    fun name hname => keys_ne_empty members hlegal.2 name (hkeys.subset hname)

mutual

/-- A value without a member `children` comes back as it was. -/
theorem regains_value
    (key : String) {o : Object} (v : ExtendedValue) (h : Presents comments opts o v)
    (hv : v.Legal) (hmentions : (dataOf opts v).mentions "children" = false) :
    ∃ g node, Regains opts key o v g node := by
  obtain ⟨protection, hnode⟩ := h.node
  cases v with
  | scalar tag rawValue info => exact regains_scalar key hnode
  | sequence values info =>
      obtain ⟨children, nodes, hgui, hback, hnodes, hreadable⟩ :=
        regains_elements values 0 hv hmentions (elementsMetadata_found h)
      exact regains_sequence key hnode hgui (hback []) hnodes hreadable
  | table members info =>
      have hnames : ∀ name ∈ (membersMetadata comments opts members).map Prod.fst,
          name ≠ "children" := keys_membersMetadata_of_mentions members "children" hmentions
      obtain ⟨children, nodes, hgui, hback, hnodes, hreadable⟩ :=
        regains_members members hv.2 hmentions fun name child hmem =>
          membersMetadata_found h hv name child
            (hnames name (List.mem_map.2 ⟨_, hmem, rfl⟩)) hmem
      exact regains_table key hnode hgui (hback [] []) hnodes hreadable

theorem regains_elements
    {o : Object} (values : List ExtendedValue) (idx : ℕ) (hvalues : valuesLegal values)
    (hmentions : valuesMention "children" (elementsData opts values) = false)
    (hfound : ∀ key child, (key, Value.object child) ∈ elementsMetadata comments opts idx values →
      metadataChild key o = .ok (some child)) :
    ∃ children nodes,
      db2guiElements (some o) idx (elementsData opts values) = .ok children ∧
      (∀ done metadata, gui2db children ⟨.array done, metadata⟩ =
        (fun added => ⟨.array (done ++ elementsData opts values), added⟩) <$>
          addElements idx values nodes metadata) ∧
      ElementsRegained opts nodes values ∧
      (valuesReadable (elementsData opts values) →
        valuesReadable children ∧ ∀ node ∈ nodes, membersReadable node) := by
  cases values with
  | nil =>
      refine ⟨[], [], rfl, fun done metadata => ?_, rfl, fun _ => ⟨trivial, by simp⟩⟩
      rw [elementsData, List.append_nil]
      rfl
  | cons v values =>
      rw [elementsData, valuesMention, Bool.or_eq_false_iff] at hmentions
      obtain ⟨g, node, hg⟩ := regains_value (toString idx) v
        (presents_metadataOf comments opts (toString idx) v) hvalues.1 hmentions.1
      obtain ⟨children, nodes, hgui, hback, hnodes, hreadable⟩ :=
        regains_elements values (idx + 1) hvalues.2 hmentions.2
          fun key child hmem => hfound key child (List.mem_cons_of_mem _ hmem)
      have hchild := hfound _ _ List.mem_cons_self
      refine ⟨.object g :: children, node :: nodes, ?_, fun done metadata => ?_,
        ⟨node, nodes, rfl, hg.regained, hnodes⟩, fun hdata => ?_⟩
      · rw [elementsData, db2guiElements, childOf, hchild]
        simp only [bind, Except.bind, hg.gui, hgui]
        rfl
      · rw [gui2db, hg.element, addElements, elementsData]
        cases addElement v (toString idx) node metadata with
        | error failure => rfl
        | ok added =>
            have hmore := hback (done ++ [dataOf opts v]) added
            rw [List.append_assoc] at hmore
            exact hmore
      · have hhead := hg.readable (isRawText_toString_nat idx) hdata.1
        have htail := hreadable hdata.2
        exact ⟨⟨hhead.1, htail.1⟩, List.forall_mem_cons.2 ⟨hhead.2, htail.2⟩⟩

theorem regains_members
    {o : Object} (members : List (String × ExtendedValue)) (hmembers : membersLegal members)
    (hmentions : membersMention "children" (membersData opts members) = false)
    (hfound : ∀ key child, (key, Value.object child) ∈ membersMetadata comments opts members →
      metadataChild key o = .ok (some child)) :
    ∃ children nodes,
      db2guiMembers (some o) (membersData opts members) = .ok children ∧
      (∀ done metadata, gui2db children ⟨.object done, metadata⟩ =
        .ok ⟨.object (done ++ membersData opts members), metadata ++ nodes⟩) ∧
      MembersRegained opts nodes members ∧
      (membersReadable (membersData opts members) →
        valuesReadable children ∧ membersReadable nodes) := by
  cases members with
  | nil =>
      refine ⟨[], [], rfl, fun done metadata => ?_, rfl, fun _ => ⟨trivial, trivial⟩⟩
      rw [membersData, List.append_nil, List.append_nil]
      rfl
  | cons member members =>
      obtain ⟨key, v⟩ := member
      obtain ⟨hkey, hv, hrest⟩ := hmembers
      by_cases hselects : opts.selects v
      · rw [membersData, if_pos hselects, membersMention] at hmentions
        simp only [Bool.or_eq_false_iff, decide_eq_false_iff_not] at hmentions
        rw [membersMetadata, if_pos hselects] at hfound
        obtain ⟨g, node, hg⟩ := regains_value key v
          (presents_metadataOf comments opts key v) hv hmentions.1.2
        obtain ⟨children, nodes, hgui, hback, hnodes, hreadable⟩ :=
          regains_members members hrest hmentions.2
            fun key child hmem => hfound key child (List.mem_cons_of_mem _ hmem)
        have hchild := hfound _ _ List.mem_cons_self
        refine ⟨.object g :: children, (key, .object node) :: nodes, ?_, fun done metadata => ?_,
          ?_, fun hdata => ?_⟩
        · rw [membersData, if_pos hselects, db2guiMembers, childOf, hchild]
          simp only [bind, Except.bind, hg.gui, hgui]
          rfl
        · have hmore := hback (done ++ [(key, dataOf opts v)]) (metadata ++ [(key, .object node)])
          rw [List.append_assoc, List.append_assoc] at hmore
          rw [gui2db, hg.member, membersData, if_pos hselects]
          exact hmore
        · exact (membersRegained_selected hselects).2 ⟨node, nodes, rfl, hg.regained, hnodes⟩
        · rw [membersData, if_pos hselects, membersReadable_cons] at hdata
          have hhead := hg.readable hdata.1 hdata.2.1
          have htail := hreadable hdata.2.2
          exact ⟨⟨hhead.1, htail.1⟩, hdata.1, hhead.2, htail.2⟩
      · rw [membersData, if_neg hselects] at hmentions
        rw [membersMetadata, if_neg hselects] at hfound
        obtain ⟨children, nodes, hgui, hback, hnodes, hreadable⟩ :=
          regains_members members hrest hmentions hfound
        rw [membersData, if_neg hselects]
        exact ⟨children, nodes, hgui, hback, (membersRegained_left_out hselects).2 hnodes,
          hreadable⟩

end

end

end ArtdaqDatabase
