import ArtdaqDatabase.FhiclText
import ArtdaqDatabase.JsonDocument

/-!
# Documents for the editor

`json_db_to_gui` joins data and metadata into a tree of nodes that an editor
shows, and `json_gui_to_db` takes such a tree apart again.  A node of the metadata
is looked up in two places, since the metadata of a table stand under its member
`children` and those of a document do not.  A node refers to its part of the
document; here it is a copy.
-/

namespace ArtdaqDatabase

open OrderedTable

/-! ## Nodes of the metadata -/

/-- A node without metadata is `none`. -/
abbrev MetadataNode := Option Object

/-- `metadata_node_t::_string_value_of`. -/
def stringValueOf (name : String) (node : Object) : Except Failure String :=
  stringAt name node

/-- `metadata_node_t::child`. -/
def metadataChild (name : String) (node : Object) : Except Failure MetadataNode := do
  confirm (name ≠ "")
  match objectAt name node with
  | .ok child => return some child
  | .error _ =>
      match objectAt "children" node >>= objectAt name with
      | .ok child => return some child
      | .error _ => return none

def childOf (name : String) : MetadataNode → Except Failure MetadataNode
  | none => .ok none
  | some node => metadataChild name node

/-- A member of the metadata, or what stands for it without metadata. -/
def describedAs (name default : String) : MetadataNode → Except Failure String
  | none => .ok default
  | some node => stringValueOf name node

/-- A missing annotation is an empty one. -/
def annotationOf (metadata : MetadataNode) : Except Failure String :=
  match describedAs "annotation" "" metadata with
  | .error (.outOfRange _) => .ok ""
  | result => result

/-! ## From the database to the editor -/

/-- A node of the editor before its type is known. -/
def guiNode (key comment : String) (contents : Object) : Object :=
  [("type", .string "unknown"), ("name", .string key), ("comment", .string comment)] ++ contents

def scalarGuiNode (key : String) (metadata : MetadataNode) (value : Value) :
    Except Failure Object := do
  let comment ← describedAs "comment" " " metadata
  let typeName ← describedAs "type" "string" metadata
  let annotation ← annotationOf metadata
  let object := guiNode key comment [("value", value), ("annotation", .string annotation)]
  return set "type" (.string typeName) object

mutual

/-- `db2gui::operator()` for a member of the data. -/
def db2gui (key : String) (metadata : MetadataNode) : Value → Except Failure Object
  | .object members => do
      let comment ← describedAs "comment" " " metadata
      let children ← db2guiMembers metadata members
      let typeName ← describedAs "type" "table" metadata
      return set "type" (.string typeName) (guiNode key comment [("children", .array children)])
  | .array values => do
      let comment ← describedAs "comment" " " metadata
      let children ← db2guiElements metadata 0 values
      let typeName ← describedAs "type" "sequence" metadata
      return set "type" (.string typeName) (guiNode key comment [("children", .array children)])
  | .string text => scalarGuiNode key metadata (.string text)
  | .decimal text => scalarGuiNode key metadata (.decimal text)
  | .integer number => scalarGuiNode key metadata (.integer number)
  | .boolean flag => scalarGuiNode key metadata (.boolean flag)

/-- The elements of a sequence are named by their positions. -/
def db2guiElements (metadata : MetadataNode) (idx : ℕ) :
    List Value → Except Failure (List Value)
  | [] => .ok []
  | v :: values => do
      let child ← childOf (toString idx) metadata
      let object ← db2gui (toString idx) child v
      let objects ← db2guiElements metadata (idx + 1) values
      return .object object :: objects

def db2guiMembers (metadata : MetadataNode) :
    List (String × Value) → Except Failure (List Value)
  | [] => .ok []
  | (key, v) :: members => do
      let child ← childOf key metadata
      let object ← db2gui key child v
      let objects ← db2guiMembers metadata members
      return .object object :: objects

end

/-- The document that `json_db_to_gui` writes. -/
def guiDocument (dbAst : Object) : Except Failure Object := do
  let document ← objectAt "document" dbAst
  let data ← objectAt "data" document
  let metadata ← objectAt "metadata" document
  let children ← db2guiMembers (some metadata) data
  let guiAst : Object := [("guidata", .array children)]
  let guiAst :=
    match stringAt "changelog" dbAst with
    | .ok changelog => set "changelog" (.string changelog) guiAst
    | .error _ => guiAst
  return set "document" (.object (set "converted" (.object guiAst) document)) dbAst

/-! ## From the editor to the database -/

/-- The nodes of data and metadata that are being filled. -/
structure DbNodes where
  data : Value
  metadata : Object

/-- `json_node_t::makeChild` on a node of the data. -/
def makeChild (name : String) (child : Value) : Value → Except Failure Value
  | .object members => .ok (.object (members ++ [(name, child)]))
  | .array values => .ok (.array (values ++ [child]))
  | _ => .error .confirmFailed

/-- A plain element of a sequence. -/
def pushElement (value : Value) (nodes : DbNodes) : Except Failure DbNodes := do
  let values ← nodes.data.getArray
  return { nodes with data := .array (values ++ [value]) }

/-- `json_node_t::makeChildOfChildren` on a node of the metadata. -/
def makeChildOfChildren (name : String) (child metadata : Object) : Except Failure Object := do
  let metadata :=
    if count "children" metadata = 0 then set "children" (.object []) metadata else metadata
  let children ← objectAt "children" metadata
  return set "children" (.object (children ++ [(name, .object child)])) metadata

/-- The type that decides how a node is taken apart. -/
def guiTypeName (child : Object) : Except Failure String := do
  let typeName ← stringAt "type" child
  return if typeName = "table" ∧ count "value" child = 1 ∧ count "children" child = 0 then "string"
    else typeName

def sequenceChild
    (child : Object) (fill : Except Failure (DbNodes → Except Failure DbNodes))
    (nodes : DbNodes) : Except Failure DbNodes := do
  let fillChildren ← fill
  let name ← stringAt "name" child
  let comment ← stringAt "comment" child
  let annotation :=
    match stringAt "annotation" child with
    | .ok text => annotate text
    | .error _ => ""
  let filled ← fillChildren ⟨.array [], [("type", .string "sequence"),
    ("comment", .string comment), ("annotation", .string annotation)]⟩
  let data ← makeChild name filled.data nodes.data
  return ⟨data, nodes.metadata ++ [(name, .object filled.metadata)]⟩

def tableChild
    (child : Object) (fill : Except Failure (DbNodes → Except Failure DbNodes))
    (nodes : DbNodes) : Except Failure DbNodes := do
  let name ← stringAt "name" child
  let comment ← stringAt "comment" child
  let fillChildren ← fill
  let filled ← fillChildren ⟨.object [], []⟩
  let data ← makeChild name filled.data nodes.data
  return ⟨data, nodes.metadata ++ [(name, .object [("type", .string "table"),
    ("comment", .string comment), ("children", .object filled.metadata)])]⟩

def scalarChild (typeName : String) (child : Object) (nodes : DbNodes) :
    Except Failure DbNodes := do
  let value ← valueAt "value" child
  let name ← stringAt "name" child
  let comment ← stringAt "comment" child
  let annotation ← stringAt "annotation" child
  let node : Object := [("type", .string typeName), ("comment", .string comment),
    ("annotation", .string (annotate annotation))]
  match nodes.data with
  | .array values => do
      let metadata ← makeChildOfChildren name node nodes.metadata
      return ⟨.array (values ++ [value]), metadata⟩
  | .object members =>
      return ⟨.object (members ++ [(name, value)]), nodes.metadata ++ [(name, .object node)]⟩
  | _ => .error .badGet

mutual

/-- `gui2db::operator()`. -/
def gui2db : List Value → DbNodes → Except Failure DbNodes
  | [], nodes => .ok nodes
  | value :: values, nodes => do
      let filled ← gui2dbValue value nodes
      gui2db values filled

def gui2dbValue : Value → DbNodes → Except Failure DbNodes
  | .object child, nodes =>
      if count "type" child = 0 then
        pushElement (.object child) nodes
      else do
        let typeName ← guiTypeName child
        if typeName = "sequence" ∨ typeName = "array" then
          sequenceChild child (gui2dbChildren child) nodes
        else if typeName = "table" ∨ typeName = "object" then
          tableChild child (gui2dbChildren child) nodes
        else
          scalarChild typeName child nodes
  | value, nodes => pushElement value nodes

/-- What the first member `children` of a node is filled in by. -/
def gui2dbChildren : List (String × Value) → Except Failure (DbNodes → Except Failure DbNodes)
  | [] => .error (.outOfRange "children")
  | (key, .array values) :: members =>
      if key = "children" then .ok (gui2db values) else gui2dbChildren members
  | (key, _) :: members =>
      if key = "children" then .error .badGet else gui2dbChildren members

end

/-- The document that `json_gui_to_db` writes. -/
def dbDocument (guiAst : Object) : Except Failure Object := do
  let document ← objectAt "document" guiAst
  let converted ← objectAt "converted" document
  let guiNodes ← arrayAt "guidata" converted
  let filled ← gui2db guiNodes ⟨.object [], []⟩
  let guiAst :=
    match stringAt "changelog" converted with
    | .ok changelog => set "changelog" (.string changelog) guiAst
    | .error _ => guiAst
  let _ ← objectAt "data" document
  let document := set "data" filled.data document
  let _ ← objectAt "metadata" document
  let document := set "metadata" (.object filled.metadata) document
  return set "document" (.object (set "converted" (.object []) document)) guiAst

/-! ## Texts -/

section

variable (decimalText : List Char → String)

def jsonDbToGui (dbJson : String) : Except Failure String := do
  confirm (dbJson ≠ "")
  match ← JsonReader.read decimalText dbJson with
  | none => .error (.runtimeError "json_db_to_gui: Unable to read JSON buffer.")
  | some dbAst =>
      let guiAst ← guiDocument dbAst
      JsonWriter.write guiAst

def jsonGuiToDb (guiJson : String) : Except Failure String := do
  confirm (guiJson ≠ "")
  match ← JsonReader.read decimalText guiJson with
  | none => .error (.runtimeError "json_db_to_gui: Unable to read JSON buffer.")
  | some guiAst =>
      let dbAst ← dbDocument guiAst
      JsonWriter.write dbAst

end

end ArtdaqDatabase
