import ArtdaqDatabase.JsonValue

/-!
# JSON documents

The lookups of `JSONDocument` that the file-system provider relies on, and the
text that `JsonWriter` prints.  The provider reads an object id back from that
text with a regular expression, so the text is modelled too.
-/

namespace ArtdaqDatabase

open OrderedTable

/-! ## Text -/

mutual

/-- `JsonWriter`: members and elements are separated by a comma and a newline. -/
def writeValue : Value → String
  | .object members => "\x7b\n" ++ writeMembers members ++ "\n\x7d"
  | .array values => "[\n" ++ writeValues values ++ "\n]"
  | .string text => "\"" ++ text ++ "\""
  | .decimal text => text
  | .integer number => toString number
  | .boolean flag => if flag then "true" else "false"

def writeValues : List Value → String
  | [] => ""
  | [v] => writeValue v
  | v :: w :: rest => writeValue v ++ ",\n" ++ writeValues (w :: rest)

def writeMembers : List (String × Value) → String
  | [] => ""
  | [(k, v)] => "\"" ++ k ++ "\" : " ++ writeValue v
  | (k, v) :: w :: rest =>
      "\"" ++ k ++ "\" : " ++ writeValue v ++ ",\n" ++ writeMembers (w :: rest)

end

/-- `JsonWriter::write`. -/
def JsonWriter.write (ast : Object) : Except Failure String := do
  confirm (ast ≠ [])
  return writeValue (.object ast)

/-- `JSONDocument::writeJson`. -/
def writeJson (o : Object) : String :=
  if o = [] then "\x7b\x7d" else writeValue (.object o)

/-- `tostring_visitor`. -/
def toStringVisitor : Value → String
  | .object _ => "object(...)"
  | .array _ => "array(...)"
  | .string text => text
  | .decimal text => text
  | .integer number => toString number
  | .boolean flag => if flag then "true" else "false"

/-- The text that `value` and `value_at` give for a found value. -/
def valueText : Value → String
  | .object o => writeJson o
  | other => toStringVisitor other

theorem JsonWriter.write_ok {ast : Object} (hne : ast ≠ []) :
    JsonWriter.write ast = .ok (writeValue (.object ast)) := by
  simp [JsonWriter.write, confirm, hne, bind, Except.bind, pure, Except.pure]

/-! ## Lookups -/

/-- `JSONDocument::findChildValue` along a path that is already split. -/
def findChildValue : List String → Value → Except Failure Value
  | [], v => .ok v
  | token :: rest, .object o =>
      match lookup token o with
      | some child => findChildValue rest child
      | none => .error (.notFound token)
  | token :: _, _ => .error (.notFound token)

/-- `JSONDocument::findChild`: the child under its own path. -/
def findChild (name : String) (v : Value) : Except Failure Value := do
  let found ← findChildValue [name] v
  .ok (.object [(name, found)])

/-- `JSONDocument::findChildDocument`: only an object is a document. -/
def findChildDocument (name : String) (v : Value) : Except Failure Value := do
  let found ← findChildValue [name] v
  match found with
  | .object o => .ok (.object o)
  | _ => .error (.notFound name)

/-- `JSONDocument::getPayloadValueForKey`. -/
def getPayloadValueForKey (key : String) (v : Value) : Except Failure Value := do
  let o ← v.getObject
  if count "payload" o = 1 then
    let value ← valueAt "payload" o
    match value with
    | .object payload => if count key payload = 1 then valueAt key payload else .ok value
    | _ => .ok value
  else
    match o with
    | [(_, only)] => .ok only
    | _ => .ok v

/-- `JSONDocument::value`. -/
def documentValue (v : Value) : Except Failure String := do
  let docValue ← getPayloadValueForKey "null" v
  .ok (valueText docValue)

/-- The element that `JSONDocument::value_at` prints; every failure becomes a
`runtime_error`. -/
def elementAt (v : Value) (index : ℕ) : Except Failure Value :=
  match getPayloadValueForKey "0" v >>= Value.getArray with
  | .ok values =>
      match values[index]? with
      | some found => .ok found
      | none => .error (.runtimeError "Failed calling value_at(): Caught exception:")
  | .error _ => .error (.runtimeError "Failed calling value_at(): Caught exception:")

/-- `findChild(name).value()`. -/
def childText (name : String) (v : Value) : Except Failure String :=
  findChild name v >>= documentValue

theorem findChildDocument_eq_ok {name : String} {v w : Value} :
    findChildDocument name v = .ok w ↔
      ∃ o p, v = .object o ∧ lookup name o = some (.object p) ∧ w = .object p := by
  unfold findChildDocument
  cases v with
  | object o =>
      cases hlookup : lookup name o with
      | none => simp [findChildValue, hlookup, bind, Except.bind]
      | some child =>
          cases child <;>
            simp [findChildValue, hlookup, bind, Except.bind, eq_comm]
  | array _ => simp [findChildValue, bind, Except.bind]
  | string _ => simp [findChildValue, bind, Except.bind]
  | decimal _ => simp [findChildValue, bind, Except.bind]
  | integer _ => simp [findChildValue, bind, Except.bind]
  | boolean _ => simp [findChildValue, bind, Except.bind]

theorem childText_of_lookup
    {name : String} {o : Object} {child : Value}
    (hname : name ≠ "payload") (hlookup : lookup name o = some child) :
    childText name (.object o) = .ok (valueText child) := by
  have hcount : count "payload" [(name, child)] ≠ 1 := by
    simp [count, hname]
  simp only [childText, findChild, findChildValue, hlookup, bind, Except.bind,
    documentValue, getPayloadValueForKey, Value.getObject, if_neg hcount]

theorem childText_of_absent
    {name : String} {o : Object} (hlookup : lookup name o = none) :
    childText name (.object o) = .error (.notFound name) := by
  simp [childText, findChild, findChildValue, hlookup, bind, Except.bind]

/-! ## Object ids -/

/-- `extract_oid`: the text after the first colon of a one-object JSON text,
without its closing brace, trailing blanks and quotes. -/
def extractOid (filter : String) : Except Failure String :=
  match filter.toList with
  | '{' :: rest =>
      match rest.takeWhile (· ≠ ':'), rest.dropWhile (· ≠ ':') with
      | _ :: _, ':' :: blank :: tail =>
          match blank.isWhitespace, (tail.dropWhile Char.isWhitespace).reverse with
          | true, '}' :: last :: inner =>
              .ok (dequote ((last :: inner).dropWhile Char.isWhitespace).reverse)
          | _, _ => .error (.logicError "Regex ouid search failed; JSON buffer:")
      | _, _ => .error (.logicError "Regex ouid search failed; JSON buffer:")
  | _ => .error (.logicError "Regex ouid search failed; JSON buffer:")
where
  dequote (s : List Char) : String :=
    match s, s.getLast? with
    | '"' :: inner, some '"' => String.ofList inner.dropLast
    | _, _ => String.ofList s

/-- The id is read back from the text of an `_id` object. -/
theorem extractOid_writeJson (oid : String) :
    extractOid (writeJson [("$oid", .string oid)]) = .ok oid := by
  have htext : (writeJson [("$oid", .string oid)]).toList =
      '{' :: '\n' :: '"' :: '$' :: 'o' :: 'i' :: 'd' :: '"' :: ' ' :: ':' :: ' ' ::
        '"' :: (oid.toList ++ ['"', '\n', '}']) := by
    simp [writeJson, writeValue, writeMembers]
  have hlast : ('"' :: (oid.toList ++ ['"'])).getLast? = some '"' := by
    rw [← List.cons_append, List.getLast?_append]
    simp
  simp [extractOid, htext, extractOid.dequote, List.dropWhile, hlast]

end ArtdaqDatabase
