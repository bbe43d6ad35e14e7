import ArtdaqDatabase.OrderedTable

/-!
# JSON values

The tree that `JsonReader` builds: an object is an ordered table, a string is
the raw text between its quotes, and a decimal is kept as the text that the
writer prints for it.  Access to a part of the wrong kind, or to a missing one,
fails the way `boost::get` and `table_of::at` do.
-/

namespace ArtdaqDatabase

open OrderedTable

/-- `value_t`: the variant of the JSON types. -/
inductive Value where
  | object (members : List (String × Value))
  | array (values : List Value)
  | string (text : String)
  | decimal (text : String)
  | integer (number : ℤ)
  | boolean (flag : Bool)

/-- `object_t`. -/
abbrev Object := Table String Value

/-! ## Decidable equality -/

mutual

/-- Structural comparison of two values. -/
def Value.same : Value → Value → Bool
  | .object xs, .object ys => sameMembers xs ys
  | .array xs, .array ys => sameValues xs ys
  | .string s, .string t => s = t
  | .decimal s, .decimal t => s = t
  | .integer m, .integer n => m = n
  | .boolean a, .boolean b => a = b
  | _, _ => false

def sameValues : List Value → List Value → Bool
  | [], [] => true
  | x :: xs, y :: ys => Value.same x y && sameValues xs ys
  | _, _ => false

def sameMembers : List (String × Value) → List (String × Value) → Bool
  | [], [] => true
  | (k, x) :: xs, (l, y) :: ys => k = l && (Value.same x y && sameMembers xs ys)
  | _, _ => false

end

mutual

theorem Value.same_iff (x y : Value) : Value.same x y = true ↔ x = y := by
  cases x with
  | object xs =>
      cases y <;> simp [Value.same, sameMembers_iff xs]
  | array xs =>
      cases y <;> simp [Value.same, sameValues_iff xs]
  | string s => cases y <;> simp [Value.same]
  | decimal s => cases y <;> simp [Value.same]
  | integer n => cases y <;> simp [Value.same]
  | boolean b => cases y <;> simp [Value.same]

theorem sameValues_iff (xs ys : List Value) : sameValues xs ys = true ↔ xs = ys := by
  cases xs with
  | nil => cases ys <;> simp [sameValues]
  | cons x xs =>
      cases ys with
      | nil => simp [sameValues]
      | cons y ys => simp [sameValues, Value.same_iff x, sameValues_iff xs]

theorem sameMembers_iff (xs ys : List (String × Value)) :
    sameMembers xs ys = true ↔ xs = ys := by
  cases xs with
  | nil => cases ys <;> simp [sameMembers]
  | cons x xs =>
      obtain ⟨k, x⟩ := x
      cases ys with
      | nil => simp [sameMembers]
      | cons y ys =>
          obtain ⟨l, y⟩ := y
          simp [sameMembers, Value.same_iff x, sameMembers_iff xs, and_assoc]

end

instance : DecidableEq Value := fun x y =>
  decidable_of_iff _ (Value.same_iff x y)

/-! ## Failing access -/

/-- The exceptions that the modelled code raises and tells apart. -/
inductive Failure where
  | badGet
  | outOfRange (key : String)
  | notFound (name : String)
  | confirmFailed
  | runtimeError (text : String)
  | invalidArgument (text : String)
  | logicError (text : String)
  | fhiclError (text : String)
  deriving DecidableEq

/-- `confirm`: a failed assertion raises an exception. -/
def confirm (condition : Bool) : Except Failure Unit :=
  if condition then .ok () else .error .confirmFailed

def Value.getObject : Value → Except Failure Object
  | .object members => .ok members
  | _ => .error .badGet

def Value.getArray : Value → Except Failure (List Value)
  | .array values => .ok values
  | _ => .error .badGet

def Value.getString : Value → Except Failure String
  | .string text => .ok text
  | _ => .error .badGet

def Value.getBool : Value → Except Failure Bool
  | .boolean flag => .ok flag
  | _ => .error .badGet

def isString : Value → Bool
  | .string _ => true
  | _ => false

/-- `object_t::at`. -/
def valueAt (key : String) (o : Object) : Except Failure Value :=
  match lookup key o with
  | some v => .ok v
  | none => .error (.outOfRange key)

def objectAt (key : String) (o : Object) : Except Failure Object :=
  valueAt key o >>= Value.getObject

def arrayAt (key : String) (o : Object) : Except Failure (List Value) :=
  valueAt key o >>= Value.getArray

def stringAt (key : String) (o : Object) : Except Failure String :=
  valueAt key o >>= Value.getString

def boolAt (key : String) (o : Object) : Except Failure Bool :=
  valueAt key o >>= Value.getBool

/-- The `name` member of a list entry. -/
def nameOf (entry : Value) : Except Failure String :=
  entry.getObject >>= stringAt "name"

@[simp]
theorem confirm_eq_ok {condition : Bool} {u : Unit} :
    confirm condition = .ok u ↔ condition = true := by
  cases condition <;> simp [confirm]

@[simp]
theorem getObject_eq_ok {v : Value} {o : Object} :
    v.getObject = .ok o ↔ v = .object o := by
  cases v <;> simp [Value.getObject]

@[simp]
theorem getArray_eq_ok {v : Value} {xs : List Value} :
    v.getArray = .ok xs ↔ v = .array xs := by
  cases v <;> simp [Value.getArray]

@[simp]
theorem getString_eq_ok {v : Value} {s : String} :
    v.getString = .ok s ↔ v = .string s := by
  cases v <;> simp [Value.getString]

@[simp]
theorem getBool_eq_ok {v : Value} {b : Bool} :
    v.getBool = .ok b ↔ v = .boolean b := by
  cases v <;> simp [Value.getBool]

theorem bind_eq_ok
    {ε α β : Type} {x : Except ε α} {f : α → Except ε β} {b : β} :
    x >>= f = .ok b ↔ ∃ a, x = .ok a ∧ f a = .ok b := by
  cases x <;> simp [bind, Except.bind]

@[simp]
theorem valueAt_eq_ok {key : String} {o : Object} {v : Value} :
    valueAt key o = .ok v ↔ lookup key o = some v := by
  unfold valueAt
  cases lookup key o <;> simp

@[simp]
theorem objectAt_eq_ok {key : String} {o p : Object} :
    objectAt key o = .ok p ↔ lookup key o = some (.object p) := by
  simp [objectAt, bind_eq_ok]

@[simp]
theorem arrayAt_eq_ok {key : String} {o : Object} {xs : List Value} :
    arrayAt key o = .ok xs ↔ lookup key o = some (.array xs) := by
  simp [arrayAt, bind_eq_ok]

@[simp]
theorem stringAt_eq_ok {key : String} {o : Object} {s : String} :
    stringAt key o = .ok s ↔ lookup key o = some (.string s) := by
  simp [stringAt, bind_eq_ok]

@[simp]
theorem boolAt_eq_ok {key : String} {o : Object} {b : Bool} :
    boolAt key o = .ok b ↔ lookup key o = some (.boolean b) := by
  simp [boolAt, bind_eq_ok]

theorem nameOf_eq_ok {entry : Value} {name : String} :
    nameOf entry = .ok name ↔
      ∃ o, entry = .object o ∧ lookup "name" o = some (.string name) := by
  simp [nameOf, bind_eq_ok]

end ArtdaqDatabase
