import ArtdaqDatabase.JsonDocument
import ArtdaqDatabase.JsonReader

/-!
# Mutators of a JSON document

`insertChild`, `replaceChild`, `deleteChild`, `appendChild` and `removeChild` on
the value of a document.  Every check comes before the first change, so a mutator
that throws has changed nothing.
-/

namespace ArtdaqDatabase

open OrderedTable

/-! ## Paths -/

/-- `split_path`: the tokens between points and blanks. -/
def splitPath (path : String) : List String :=
  ((path.toList.splitOnP fun c => c = '.' || isSpace c).filter (· ≠ [])).map String.ofList

/-- `validate`. -/
def validate (path caller : String) : Except Failure Unit :=
  if path = "" then
    .error (.invalidArgument
      ("Failed calling " ++ caller ++ "(): Invalid path; path is empty"))
  else .ok ()

/-- `split_path_validate`, in the order of the path. -/
def splitPathValidate (path caller : String) : Except Failure (List String) := do
  validate path caller
  if splitPath path = [] then
    .error (.invalidArgument ("Failed calling " ++ caller ++ "(): Invalid path; path=" ++ path))
  else
    return splitPath path

/-- The walk that the mutators share: the object at the end of the path is changed. -/
def updateParent (change : String → Object → Except Failure Object) :
    List String → Value → Except Failure Value
  | [], v => .ok v
  | [token], .object o => return .object (← change token o)
  | [token], _ => .error (.notFound token)
  | token :: path, .object o =>
      match lookup token o with
      | some child => return .object (set token (← updateParent change path child) o)
      | none => .error (.notFound token)
  | _ :: _, _ => .error .badGet

/-- The array that `findChildValue` finds is changed in its place. -/
def updateArray (change : List Value → List Value) : List String → Value → Except Failure Value
  | [], v => return .array (change (← v.getArray))
  | token :: path, .object o =>
      match lookup token o with
      | some child => return .object (set token (← updateArray change path child) o)
      | none => .error (.notFound token)
  | token :: _, _ => .error (.notFound token)

/-! ## Matching -/

theorem sizeOf_member_lt {m : String × Value} {o : Object} (h : m ∈ o) : sizeOf m.2 < sizeOf o := by
  have hlt := List.sizeOf_lt_of_mem h
  obtain ⟨key, v⟩ := m
  rw [Prod.mk.sizeOf_spec] at hlt
  change sizeOf v < sizeOf o
  omega

theorem sizeOf_lookup_lt {key : String} {o : Object} {v : Value} (h : lookup key o = some v) :
    sizeOf v < sizeOf o :=
  sizeOf_member_lt (mem_of_lookup h)

/-- `matches`: a member matters where the smaller object has it once, and an array
is compared with itself. -/
def matchesValue : Value → Value → Bool
  | .object left, .object right =>
      if left = [] || right = [] then false
      else if right.length ≤ left.length then
        left.attach.all fun m =>
          if count m.1.1 right ≠ 1 then true
          else
            match _h : lookup m.1.1 right with
            | some candidate => matchesValue m.1.2 candidate
            | none => true
      else
        right.attach.all fun m =>
          if count m.1.1 left ≠ 1 then true
          else
            match _h : lookup m.1.1 left with
            | some candidate => matchesValue m.1.2 candidate
            | none => true
  | .array left, .array _ => left ≠ [] && left.attach.all fun v => matchesValue v.1 v.1
  | .string left, .string right => left = right
  | .decimal left, .decimal right => left = right
  | .integer left, .integer right => left = right
  | .boolean left, .boolean right => left = right
  | _, _ => false
termination_by left right => max (sizeOf left) (sizeOf right)
decreasing_by
  · have hm := sizeOf_member_lt m.2
    have hw := sizeOf_lookup_lt _h
    simp only [Value.object.sizeOf_spec]
    omega
  · have hm := sizeOf_member_lt m.2
    have hw := sizeOf_lookup_lt _h
    simp only [Value.object.sizeOf_spec]
    omega
  · have hv := List.sizeOf_lt_of_mem v.2
    simp only [Value.array.sizeOf_spec]
    omega

/-! ## The mutators -/

/-- `insertChild`: the child must not be there. -/
def insertChild (newChild : Value) (path : String) (document : Value) : Except Failure Value := do
  let tokens ← splitPathValidate path "insertChild"
  let newValue ← getPayloadValueForKey (tokens.getLastD "") newChild
  updateParent
    (fun token o => if count token o ≠ 0 then .error (.notFound token) else .ok (set token newValue o))
    tokens document

/-- `replaceChild`: the child must be there. -/
def replaceChild (newChild : Value) (path : String) (document : Value) : Except Failure Value := do
  let tokens ← splitPathValidate path "replaceChild"
  let newValue ← getPayloadValueForKey (tokens.getLastD "") newChild
  updateParent
    (fun token o => if count token o = 0 then .error (.notFound token) else .ok (set token newValue o))
    tokens document

/-- `deleteChild`: the first child of that name goes. -/
def deleteChild (path : String) (document : Value) : Except Failure Value := do
  let tokens ← splitPathValidate path "deleteChild"
  updateParent
    (fun token o => if count token o = 0 then .error (.notFound token) else .ok (deleteAt token o))
    tokens document

/-- `appendChild`. -/
def appendChild (newChild : Value) (path : String) (document : Value) : Except Failure Value := do
  let newValue ← getPayloadValueForKey "null" newChild
  let tokens ← splitPathValidate path "findChildValue"
  updateArray (fun values => values ++ [newValue]) tokens document

/-- `removeChild`: every element that matches goes. -/
def removeChild (delChild : Value) (path : String) (document : Value) : Except Failure Value := do
  validate path "removeChild"
  let deleteValue ← getPayloadValueForKey "null" delChild
  let tokens ← splitPathValidate path "findChildValue"
  updateArray (fun values => values.filter fun v => !matchesValue deleteValue v) tokens document

end ArtdaqDatabase
