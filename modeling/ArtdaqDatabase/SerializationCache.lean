import ArtdaqDatabase.DirtyCache
import ArtdaqDatabase.JsonMutators
import ArtdaqDatabase.JsonWriter
import ArtdaqDatabase.ManageDocument

/-!
# The text of a document

`JSONDocument` caches its text.  `JSONDocumentBuilder` edits the value of its
document through the overlays, past the cache: its own `to_string` asks for a new
text first, its `extract` does not.  A session is one document on its way through
both, with the value whose text was computed last beside it.
-/

namespace ArtdaqDatabase

open DirtyCache GuardedRun InPlaceUpdate

/-- `JSONDocument::writeJson`. -/
def serialize : Value → Except Failure String
  | .object [] => .ok "\x7b\x7d"
  | .object (m :: ast) => JsonWriter.write (m :: ast)
  | _ => .error
      (.invalidArgument "Failed writing JSON: Wrong value type: type(_value) != type_t::OBJECT")

abbrev JSONDocument := Cached Value String

/-- The constructors of `JSONDocument`. -/
def JSONDocument.ofValue (value : Value) : JSONDocument :=
  ⟨value, "\x7b\x7d", true⟩

/-! ## Calls -/

inductive DocumentCall where
  | insertChild (newChild : Value) (path : String)
  | replaceChild (newChild : Value) (path : String)
  | deleteChild (path : String)
  | appendChild (newChild : Value) (path : String)
  | removeChild (delChild : Value) (path : String)
  | extract
  | toString
  | copy
  | build (env : Environment)

inductive BuilderCall where
  | edit (env : Environment) (op : BuilderOperation)
  | createFromData (template refresh : Environment) (data : Value) (left : Object)
  | toString
  | extract

inductive SessionCall where
  | document (call : DocumentCall)
  | builder (call : BuilderCall)

/-- The document in hand, or the builder that holds it. -/
inductive Session where
  | document (d : JSONDocument)
  | builder (d : JSONDocument) (printed : Value)
  deriving DecidableEq

/-- A mutator that throws has changed nothing. -/
def JSONDocument.mutate (d : JSONDocument) (f : Value → Except Failure Value) : Session :=
  .document (after (update f) d)

def JSONDocument.call (d : JSONDocument) : DocumentCall → Session
  | .insertChild newChild path => d.mutate (insertChild newChild path)
  | .replaceChild newChild path => d.mutate (replaceChild newChild path)
  | .deleteChild path => d.mutate (deleteChild path)
  | .appendChild newChild path => d.mutate (appendChild newChild path)
  | .removeChild delChild path => d.mutate (removeChild delChild path)
  | .extract => d.mutate fun _ => .ok (.object [])
  | .toString => .document (after (read serialize) d)
  | .copy => .document d
  | .build env =>
      -- the overlays complete the value in its place
      match d.value.getObject >>= ovlDatabaseRecord env with
      | .ok record => .builder (bypass (fun _ => .object record) d) d.value
      | .error _ => .document d

/-- The overlays reach the value of an object. -/
def onRecord (edit : Object → Object) : Value → Value
  | .object record => .object (edit record)
  | v => v

/-- A call on a builder.  What `createFromData` leaves when it throws is the part of
the template that it had filled in. -/
def JSONDocument.builderCall (d : JSONDocument) (printed : Value) : BuilderCall → Session
  | .edit env op => .builder (bypass (onRecord (builderEdit env op)) d) printed
  | .createFromData template refresh data left =>
      match data.getObject >>= createFromData template refresh with
      | .ok record => .builder (ofValue (.object record)) printed
      | .error _ => .builder (ofValue (.object left)) printed
  | .toString => .builder (after (read serialize) (mark d)) d.value
  | .extract => .document d

/-- A session takes the calls of the object in hand. -/
def Session.step : Session → SessionCall → Session
  | .document d, .document call => d.call call
  | .builder d printed, .builder call => d.builderCall printed call
  | session, _ => session

def Session.value : Session → Value
  | .document d => d.value
  | .builder d _ => d.value

/-- `to_string` of the object in hand. -/
def Session.toString : Session → EStateM.Result Failure JSONDocument String
  | .document d => read serialize d
  | .builder d _ => read serialize (mark d)

/-! ## Coherence -/

/-- `extract` leaves the builder while a new text is asked for, or with the value
whose text was computed last. -/
def ExtractsCoherent : Session → SessionCall → Prop
  | .builder d printed, .builder .extract => d.dirty = true ∨ d.value = printed
  | _, _ => True

instance (session : Session) (call : SessionCall) : Decidable (ExtractsCoherent session call) := by
  unfold ExtractsCoherent
  split <;> infer_instance

def Session.Coherent : Session → Prop
  | .document d => DirtyCache.Coherent serialize d
  | .builder d printed => RenderedFrom serialize printed d

theorem renderedFrom_ofValue (printed value : Value) :
    RenderedFrom serialize printed (JSONDocument.ofValue value) :=
  renderedFrom_of_dirty rfl

theorem coherent_mutate
    {d : JSONDocument} (hd : (Session.document d).Coherent) (f : Value → Except Failure Value) :
    (d.mutate f).Coherent :=
  coherent_after_update f hd

theorem coherent_call
    {d : JSONDocument} (hd : (Session.document d).Coherent) (call : DocumentCall) :
    (d.call call).Coherent := by
  cases call with
  | insertChild newChild path => exact coherent_mutate hd _
  | replaceChild newChild path => exact coherent_mutate hd _
  | deleteChild path => exact coherent_mutate hd _
  | appendChild newChild path => exact coherent_mutate hd _
  | removeChild delChild path => exact coherent_mutate hd _
  | extract => exact coherent_mutate hd _
  | copy => exact hd
  | toString =>
      have hread := renderedFrom_after_read hd
      rw [ite_self] at hread
      change RenderedFrom serialize (after (read serialize) d).value _
      rw [value_after_read]
      exact hread
  | build env =>
      cases hrecord : d.value.getObject >>= ovlDatabaseRecord env with
      | ok record =>
          simp only [JSONDocument.call, hrecord]
          exact hd
      | error e =>
          simp only [JSONDocument.call, hrecord]
          exact hd

theorem coherent_builderCall
    {d : JSONDocument} {printed : Value} (hd : (Session.builder d printed).Coherent)
    {call : BuilderCall}
    (hcall : ExtractsCoherent (.builder d printed) (.builder call)) :
    (d.builderCall printed call).Coherent := by
  cases call with
  | edit env op => exact hd
  | createFromData template refresh data left =>
      cases hrecord : data.getObject >>= createFromData template refresh with
      | ok record =>
          simp only [JSONDocument.builderCall, hrecord]
          exact renderedFrom_ofValue printed _
      | error e =>
          simp only [JSONDocument.builderCall, hrecord]
          exact renderedFrom_ofValue printed _
  | toString =>
      have hmark : RenderedFrom serialize d.value (mark d) := renderedFrom_of_dirty rfl
      exact renderedFrom_after_read hmark
  | extract =>
      rcases hcall with hdirty | hvalue
      · exact renderedFrom_of_dirty hdirty
      · change RenderedFrom serialize d.value d
        rw [hvalue]
        exact hd

/-- One call keeps the text coherent, unless it takes an edited document out of its
builder with the text from before the edit. -/
theorem coherent_step
    (session : Session) (call : SessionCall) (hsession : session.Coherent)
    (hcall : ExtractsCoherent session call) :
    (session.step call).Coherent := by
  cases session with
  | document d =>
      cases call with
      | document call => exact coherent_call hsession call
      | builder call => exact hsession
  | builder d printed =>
      cases call with
      | document call => exact hsession
      | builder call => exact coherent_builderCall hsession hcall

theorem Session.Coherent.toString_ok
    {session : Session} {text : String} {d : JSONDocument} (hsession : session.Coherent)
    (htext : session.toString = .ok text d) : serialize session.value = .ok text := by
  cases session with
  | document document => exact DirtyCache.Coherent.read_ok hsession htext
  | builder document printed =>
      have hmark : DirtyCache.Coherent serialize (mark document) := renderedFrom_of_dirty rfl
      exact hmark.read_ok htext

/-- Whatever was called before, a text that is returned is that of the current value. -/
def Session.start (value : Value) : Session :=
  .document (.ofValue value)

theorem coherent_start (value : Value) : (Session.start value).Coherent :=
  renderedFrom_ofValue value value

/-- A builder that prints its document after the edit. -/
def printedCalls : List SessionCall :=
  [.document (.build exampleEnvironment), .builder .toString,
    .builder (.edit exampleEnvironment .markReadonly), .builder .toString, .builder .extract]

/-- The edit comes between the text and `extract`. -/
def staleCalls : List SessionCall :=
  [.document (.build exampleEnvironment), .builder .toString,
    .builder (.edit exampleEnvironment .markReadonly), .builder .extract]

end ArtdaqDatabase
