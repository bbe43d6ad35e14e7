import ArtdaqDatabase.SplitLines

/-!
# Property trees

A node has a text and named children, whose names may repeat.  A child is added under a
path: the names in front of the last one are looked for from the top, and made where they
are missing.  Which of several children with one name is found is left open.
-/

namespace PropertyTree

open SplitLines

inductive Ptree where
  | node (data : String) (children : List (String × Ptree))

abbrev Ptree.empty : Ptree := .node "" []

/-- A child that is found, with the children before and after it. -/
structure Found where
  before : List (String × Ptree)
  child : Ptree
  after : List (String × Ptree)

/-- A search for a child by its name. -/
structure ChildSearch where
  find : String → List (String × Ptree) → Option Found
  found : ∀ {name children f}, find name children = some f →
    children = f.before ++ (name, f.child) :: f.after
  missed : ∀ {name children}, find name children = none → name ∉ children.map Prod.fst

def findFirst (name : String) : List (String × Ptree) → Option Found
  | [] => none
  | (key, tree) :: rest =>
      if key = name then some ⟨[], tree, rest⟩
      else (findFirst name rest).map fun f => { f with before := (key, tree) :: f.before }

def firstChild : ChildSearch where
  find := findFirst
  found := by
    intro name children f h
    induction children generalizing f with
    | nil => cases h
    | cons m rest ih =>
        obtain ⟨key, tree⟩ := m
        unfold findFirst at h
        split at h
        · subst name
          cases h
          rfl
        · obtain ⟨g, hg, rfl⟩ := Option.map_eq_some_iff.1 h
          rw [ih hg]
          rfl
  missed := by
    intro name children h
    induction children with
    | nil => simp
    | cons m rest ih =>
        obtain ⟨key, tree⟩ := m
        unfold findFirst at h
        split at h
        · cases h
        · rename_i hkey
          rw [List.map_cons, List.mem_cons, not_or]
          exact ⟨fun heq => hkey heq.symm, ih (Option.map_eq_none_iff.1 h)⟩

section Paths

variable (search : ChildSearch)

/-- `force_path` followed by a `push_back` of the child. -/
def addUnder : List (List Char) → Ptree → Ptree → Ptree
  | [], _, tree => tree
  | [name], child, .node data children =>
      .node data (children ++ [(String.ofList name, child)])
  | fragment :: next :: path, child, .node data children =>
      match search.find (String.ofList fragment) children with
      | some f =>
          .node data (f.before ++
            (String.ofList fragment, addUnder (next :: path) child f.child) :: f.after)
      | none =>
          .node data (children ++
            [(String.ofList fragment, addUnder (next :: path) child .empty)])

/-- `add_child`: the path is cut at its points. -/
def addChild (path : String) (child tree : Ptree) : Ptree :=
  addUnder search (split '.' path.toList) child tree

end Paths

mutual

/-- No name in the tree has a point. -/
def Ptree.Undotted : Ptree → Prop
  | .node _ children => namesUndotted children

def namesUndotted : List (String × Ptree) → Prop
  | [] => True
  | (name, tree) :: rest => '.' ∉ name.toList ∧ tree.Undotted ∧ namesUndotted rest

end

theorem namesUndotted_iff {children : List (String × Ptree)} :
    namesUndotted children ↔ ∀ m ∈ children, '.' ∉ m.1.toList ∧ m.2.Undotted := by
  induction children with
  | nil => simp [namesUndotted]
  | cons m rest ih => simp [namesUndotted, ih, and_assoc]

theorem namesUndotted_append {children more : List (String × Ptree)} :
    namesUndotted (children ++ more) ↔ namesUndotted children ∧ namesUndotted more := by
  simp only [namesUndotted_iff, List.mem_append, or_imp, forall_and]
  exact and_and_and_comm

/-- A path of one name puts the child behind the others. -/
theorem addChild_of_undotted (search : ChildSearch) {name : String} (hname : '.' ∉ name.toList)
    (child : Ptree) (data : String) (children : List (String × Ptree)) :
    addChild search name child (.node data children) =
      .node data (children ++ [(name, child)]) := by
  rw [addChild, split_part hname, addUnder, String.ofList_toList]

theorem addUnder_undotted (search : ChildSearch) {path : List (List Char)}
    (hpath : ∀ name ∈ path, '.' ∉ name) {child tree : Ptree} (hchild : child.Undotted)
    (htree : tree.Undotted) : (addUnder search path child tree).Undotted := by
  induction path generalizing tree with
  | nil => exact htree
  | cons fragment path ih =>
      obtain ⟨hfragment, hrest⟩ := List.forall_mem_cons.1 hpath
      have hname : '.' ∉ (String.ofList fragment).toList := by
        rwa [String.toList_ofList]
      cases tree with
      | node data children =>
          cases path with
          | nil => exact namesUndotted_append.2 ⟨htree, hname, hchild, trivial⟩
          | cons next path =>
              unfold addUnder
              split
              · rename_i f hf
                have hchildren : namesUndotted children := htree
                rw [search.found hf, namesUndotted_append] at hchildren
                obtain ⟨hbefore, -, hfound, hafter⟩ := hchildren
                exact namesUndotted_append.2 ⟨hbefore, hname, ih hrest hfound, hafter⟩
              · exact namesUndotted_append.2
                  ⟨htree, hname, ih hrest (show Ptree.empty.Undotted from trivial), trivial⟩

/-- A name with a point never becomes the name of a node. -/
theorem addChild_undotted (search : ChildSearch) (path : String) {child tree : Ptree}
    (hchild : child.Undotted) (htree : tree.Undotted) :
    (addChild search path child tree).Undotted :=
  addUnder_undotted search (fun _ hname => notMem_of_mem_split hname) hchild htree

end PropertyTree
