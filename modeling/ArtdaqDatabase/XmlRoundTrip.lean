import ArtdaqDatabase.JsonDocument
import ArtdaqDatabase.PropertyTree

/-!
# XML trees as JSON and back

`XmlReader` puts a member into the JSON tree for each node, under the name of the node.
`XmlWriter` adds a node for each member, but takes the name for a path, so a name with a
point becomes several nodes.
-/

namespace ArtdaqDatabase

open PropertyTree

namespace XmlReader

mutual

/-- A node without children is a string. -/
def convertBranch : Ptree → Value
  | .node data [] => .string data
  | .node _ (child :: children) => .object (convert (child :: children))

/-- `XmlReader::read`, the `convert` of the children of a node. -/
def convert : List (String × Ptree) → List (String × Value)
  | [] => []
  | (name, tree) :: rest => (name, convertBranch tree) :: convert rest

end

end XmlReader

namespace XmlWriter

section

variable (search : ChildSearch)

mutual

/-- The node of a member: `leaf_string_value`, or the members of an object. -/
def convertBranch : Value → Except Failure Ptree
  | .object members => convert members .empty
  | .array _ => .error .badGet
  | .string text => .ok (.node (toStringVisitor (.string text)) [])
  | .decimal text => .ok (.node (toStringVisitor (.decimal text)) [])
  | .integer number => .ok (.node (toStringVisitor (.integer number)) [])
  | .boolean flag => .ok (.node (toStringVisitor (.boolean flag)) [])

/-- `XmlWriter::write`, the `convert` of the members into a tree. -/
def convert : List (String × Value) → Ptree → Except Failure Ptree
  | [], tree => .ok tree
  | (key, v) :: members, tree => do
      let branch ← convertBranch v
      convert members (addChild search key branch tree)

end

end

end XmlWriter

/-! ## Trees of elements -/

mutual

/-- A node with children has no text. -/
def plainTree : Ptree → Prop
  | .node data children => (children = [] ∨ data = "") ∧ plainNodes children

def plainNodes : List (String × Ptree) → Prop
  | [] => True
  | (_, tree) :: rest => plainTree tree ∧ plainNodes rest

end

/-! ## There and back -/

section

variable (search : ChildSearch)

mutual

theorem convertBranch_convertBranch (tree : Ptree) (hplain : plainTree tree)
    (hnames : tree.Undotted) :
    XmlWriter.convertBranch search (XmlReader.convertBranch tree) = .ok tree := by
  cases tree with
  | node data children =>
      obtain ⟨htext, hplain⟩ := hplain
      cases children with
      | nil => rfl
      | cons child children =>
          have hdata : data = "" := htext.resolve_left (List.cons_ne_nil _ _)
          subst hdata
          have hback := convert_convert (child :: children) hplain hnames "" []
          rw [List.nil_append] at hback
          exact hback

theorem convert_convert (nodes : List (String × Ptree)) (hplain : plainNodes nodes)
    (hnames : namesUndotted nodes) (data : String) (before : List (String × Ptree)) :
    XmlWriter.convert search (XmlReader.convert nodes) (.node data before) =
      .ok (.node data (before ++ nodes)) := by
  cases nodes with
  | nil => simp [XmlReader.convert, XmlWriter.convert]
  | cons m rest =>
      obtain ⟨name, tree⟩ := m
      obtain ⟨hname, htree, hrest⟩ := hnames
      obtain ⟨hplain, hplains⟩ := hplain
      have hbranch := convertBranch_convertBranch tree hplain htree
      have hback := convert_convert rest hplains hrest data (before ++ [(name, tree)])
      rw [XmlReader.convert, XmlWriter.convert, hbranch]
      change XmlWriter.convert search (XmlReader.convert rest)
        (addChild search name tree (.node data before)) = _
      rw [addChild_of_undotted search hname, hback, List.append_assoc, List.singleton_append]

end

mutual

theorem convertBranch_undotted (v : Value) (tree : Ptree)
    (h : XmlWriter.convertBranch search v = .ok tree) : tree.Undotted := by
  cases v with
  | object members => exact convert_undotted members .empty trivial tree h
  | array values => cases h
  | string | decimal | integer | boolean =>
      cases h
      trivial

/-- What the writer builds has no name with a point. -/
theorem convert_undotted (members : List (String × Value)) (start : Ptree)
    (hstart : start.Undotted) (tree : Ptree)
    (h : XmlWriter.convert search members start = .ok tree) : tree.Undotted := by
  cases members with
  | nil =>
      cases h
      exact hstart
  | cons m members =>
      obtain ⟨key, v⟩ := m
      rw [XmlWriter.convert, bind_eq_ok] at h
      obtain ⟨branch, hbranch, h⟩ := h
      have hchild := convertBranch_undotted v branch hbranch
      exact convert_undotted members _ (addChild_undotted search key hchild hstart) tree h

end

/-- The tree comes back if and only if no element name has a point. -/
theorem xml_round_trip_iff {nodes : List (String × Ptree)} (hplain : plainNodes nodes) :
    XmlWriter.convert search (XmlReader.convert nodes) .empty = .ok (.node "" nodes) ↔
      namesUndotted nodes := by
  constructor
  · intro h
    exact convert_undotted search _ .empty trivial _ h
  · intro hnames
    have hback := convert_convert search nodes hplain hnames "" []
    rwa [List.nil_append] at hback

end

theorem xml_round_trip_iff_siblings :
    XmlWriter.convert firstChild
        (XmlReader.convert [("a", .node "" [("b", .node "1" []), ("b", .node "" [])])]) .empty =
        .ok (.node "" [("a", .node "" [("b", .node "1" []), ("b", .node "" [])])]) ↔
      namesUndotted [("a", .node "" [("b", .node "1" []), ("b", .node "" [])])] :=
  xml_round_trip_iff firstChild
    ⟨⟨Or.inr rfl, ⟨Or.inl rfl, trivial⟩, ⟨Or.inl rfl, trivial⟩, trivial⟩, trivial⟩

/-- One element `a.b` comes back as `b` inside of `a`. -/
theorem xml_round_trip_dotted :
    ¬ ∀ nodes : List (String × Ptree), plainNodes nodes →
      XmlWriter.convert firstChild (XmlReader.convert nodes) .empty = .ok (.node "" nodes) := by
  intro h
  have hdotted := h [("a.b", .node "1" [])] ⟨⟨Or.inl rfl, trivial⟩, trivial⟩
  have hsplit : XmlWriter.convert firstChild (XmlReader.convert [("a.b", .node "1" [])]) .empty =
      .ok (.node "" [("a", .node "" [("b", .node "1" [])])]) := by
    rfl
  rw [hsplit] at hdotted
  simp at hdotted

end ArtdaqDatabase
