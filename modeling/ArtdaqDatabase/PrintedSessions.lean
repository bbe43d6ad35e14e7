import ArtdaqDatabase.PrintableRecords
import ArtdaqDatabase.SerializationCache

/-!
# Printed sessions

A document that was read goes through mutators, a builder and its operations, whose
arguments were read as well.  Its value can be printed after every call, and a text
that `to_string` returns is read back as the value in hand, with its decimals as the
reader takes them.
-/

namespace ArtdaqDatabase

open OrderedTable InPlaceUpdate DirtyCache GuardedRun

/-! ## Mutators -/

theorem gives_getPayloadValueForKey {key : String} {v : Value} (hv : v.Printable) :
    Gives Value.Printable (getPayloadValueForKey key v) := by
  refine (gives_getObject hv).bind fun o ho => Gives.ite ?_ ?_
  · refine (gives_valueAt ho).bind fun value hvalue => ?_
    cases value with
    | object payload => exact Gives.ite (gives_valueAt hvalue) (Gives.ok hvalue)
    | _ => exact Gives.ok hvalue
  · split
    · rename_i name only
      exact Gives.ok (membersPrintable_iff.1 ho (name, only) (by simp)).2
    · exact Gives.ok hv

/-- The name of a member that is there. -/
theorem raw_of_lookup
    {key : String} {o : Object} {v : Value} (ho : membersPrintable o)
    (hlookup : lookup key o = some v) : isRawText key.toList = true :=
  (membersPrintable_iff.1 ho _ (mem_of_lookup hlookup)).1

theorem raw_of_count {key : String} {o : Object} (ho : membersPrintable o)
    (hcount : count key o ≠ 0) : isRawText key.toList = true := by
  cases hlookup : lookup key o with
  | none => exact absurd (count_eq_zero_iff.2 hlookup) hcount
  | some v => exact raw_of_lookup ho hlookup

theorem mem_of_mem_deleteAt {key : String} {o : Object} {m : String × Value}
    (hm : m ∈ deleteAt key o) : m ∈ o := by
  induction o with
  | nil => exact hm
  | cons first o ih =>
      obtain ⟨name, v⟩ := first
      rw [deleteAt] at hm
      split at hm
      · exact List.mem_cons_of_mem _ hm
      · rw [List.mem_cons] at hm ⊢
        exact hm.imp_right ih

theorem membersPrintable_deleteAt {key : String} {o : Object} (ho : membersPrintable o) :
    membersPrintable (deleteAt key o) := by
  rw [membersPrintable_iff] at *
  exact fun m hm => ho m (mem_of_mem_deleteAt hm)

theorem gives_updateParent
    {change : String → Object → Except Failure Object} {path : List String}
    (hchange : ∀ token ∈ path, ∀ o, membersPrintable o → Gives membersPrintable (change token o))
    {v : Value} (hv : v.Printable) : Gives Value.Printable (updateParent change path v) := by
  induction path generalizing v with
  | nil => exact Gives.ok hv
  | cons token path ih =>
      have hlater := fun t ht => hchange t (List.mem_cons_of_mem token ht)
      cases v with
      | object o =>
          cases path with
          | nil => exact (hchange token (by simp) o hv).bind fun o' ho' => Gives.ok ho'
          | cons next path =>
              simp only [updateParent]
              cases hlookup : lookup token o with
              | none => exact Gives.error _
              | some child =>
                  refine (ih hlater (printable_of_lookup hv hlookup)).bind fun w hw => Gives.ok ?_
                  exact membersPrintable_set hv (raw_of_lookup hv hlookup) hw
      | _ =>
          cases path with
          | nil => exact Gives.error _
          | cons next path => exact Gives.error _

theorem gives_updateArray
    {change : List Value → List Value}
    (hchange : ∀ values, valuesPrintable values → valuesPrintable (change values))
    {path : List String} {v : Value} (hv : v.Printable) :
    Gives Value.Printable (updateArray change path v) := by
  induction path generalizing v with
  | nil => exact (gives_getArray hv).bind fun values hvalues => Gives.ok (hchange values hvalues)
  | cons token path ih =>
      cases v with
      | object o =>
          rw [updateArray]
          cases hlookup : lookup token o with
          | none => exact Gives.error _
          | some child =>
              refine (ih (printable_of_lookup hv hlookup)).bind fun w hw => Gives.ok ?_
              exact membersPrintable_set hv (raw_of_lookup hv hlookup) hw
      | _ => exact Gives.error _

section Mutators

variable {path : String} {document : Value} (hdocument : document.Printable)
include hdocument

theorem gives_deleteChild : Gives Value.Printable (deleteChild path document) := by
  refine (Gives.trivial _).bind fun tokens _ => gives_updateParent (fun token _ o ho => ?_) hdocument
  exact Gives.ite (Gives.error _) (Gives.ok (membersPrintable_deleteAt ho))

theorem gives_removeChild (delChild : Value) :
    Gives Value.Printable (removeChild delChild path document) := by
  refine (Gives.trivial _).bind fun _ _ => (Gives.trivial _).bind fun deleteValue _ => ?_
  refine (Gives.trivial _).bind fun tokens _ => gives_updateArray (fun values hvalues => ?_) hdocument
  rw [valuesPrintable_iff] at *
  exact fun v hv => hvalues v (List.mem_of_mem_filter hv)

variable {newChild : Value} (hchild : newChild.Printable)
include hchild

/-- Only this mutator gives a name to a member. -/
theorem gives_insertChild (hpath : ∀ token ∈ splitPath path, isRawText token.toList = true) :
    Gives Value.Printable (insertChild newChild path document) := by
  have htokens : Gives (fun tokens => ∀ token ∈ tokens, isRawText token.toList = true)
      (splitPathValidate path "insertChild") :=
    (Gives.trivial _).bind fun _ _ => Gives.ite (Gives.error _) (Gives.ok hpath)
  refine htokens.bind fun tokens hraw => ?_
  refine (gives_getPayloadValueForKey hchild).bind fun newValue hnew => ?_
  refine gives_updateParent (fun token htoken o ho => ?_) hdocument
  exact Gives.ite (Gives.error _) (Gives.ok (membersPrintable_set ho (hraw token htoken) hnew))

theorem gives_replaceChild : Gives Value.Printable (replaceChild newChild path document) := by
  refine (Gives.trivial _).bind fun tokens _ => ?_
  refine (gives_getPayloadValueForKey hchild).bind fun newValue hnew => ?_
  refine gives_updateParent (fun token _ o ho => ?_) hdocument
  split
  · exact Gives.error _
  · rename_i hcount
    exact Gives.ok (membersPrintable_set ho (raw_of_count ho hcount) hnew)

theorem gives_appendChild : Gives Value.Printable (appendChild newChild path document) := by
  refine (gives_getPayloadValueForKey hchild).bind fun newValue hnew => ?_
  refine (Gives.trivial _).bind fun tokens _ => gives_updateArray (fun values hvalues => ?_) hdocument
  exact valuesPrintable_append hvalues ⟨hnew, True.intro⟩

end Mutators

/-! ## New records -/

theorem membersPrintable_importChild
    {path : List String} (hpath : ∀ token ∈ path, isRawText token.toList = true)
    {data : Value} (hdata : data.Printable) {record : Object} (hrecord : membersPrintable record) :
    membersPrintable (importChild path data record) := by
  have hfound := @gives_findChildValue path data hdata
  unfold importChild
  split
  · rename_i found key hkey
    exact membersPrintable_set hrecord (hpath key (by simp)) (hfound _ hkey)
  · rename_i found key member hmember
    split
    · rename_i o ho
      have hinner := membersPrintable_set (gives_objectAt hrecord o ho) (hpath member (by simp))
        (hfound _ hmember)
      exact membersPrintable_set (v := .object _) hrecord (hpath key (by simp)) hinner
    · exact hrecord
  · exact hrecord

theorem gives_importUserData
    {data record : Object} (hdata : membersPrintable data) (hrecord : membersPrintable record) :
    Gives membersPrintable (importUserData data record) := by
  have hv : (Value.object data).Printable := hdata
  have himport : ∀ path : List String, (∀ token ∈ path, isRawText token.toList = true) →
      ∀ o, membersPrintable o → membersPrintable (importChild path (.object data) o) :=
    fun path hpath o ho => membersPrintable_importChild hpath hv ho
  have himported := himport ["attachments"] (by decide) _ <|
    himport ["collection"] (by decide) _ <| himport ["origin"] (by decide) _ <|
      himport ["changelog"] (by decide) _ <|
        himport ["document", "metadata"] (by decide) _ hrecord
  unfold importUserData
  dsimp only
  split
  · exact Gives.ok (himport ["document", "data"] (by decide) _ himported)
  · refine (gives_getPayloadValueForKey hv).bind fun only honly => ?_
    refine (gives_objectAt himported).bind fun document hdocument => Gives.ok ?_
    exact membersPrintable_set (v := .object _) himported (by decide)
      (membersPrintable_set hdocument (by decide) honly)

theorem gives_createFromData
    {template refresh : Environment} (htemplate : RawEnvironment template)
    (hrefresh : RawEnvironment refresh) {data : Object} (hdata : membersPrintable data) :
    Gives membersPrintable (createFromData template refresh data) :=
  (gives_ovlDatabaseRecord htemplate (membersPrintable_iff.2 (by simp))).bind fun _ hrecord =>
    (gives_importUserData hdata hrecord).bind fun _ hfilled =>
      gives_ovlDatabaseRecord hrefresh hfilled

/-! ## Sessions -/

/-- What the call is given can be printed. -/
def DocumentCall.Printable : DocumentCall → Prop
  | .insertChild newChild path =>
      newChild.Printable ∧ ∀ token ∈ splitPath path, isRawText token.toList = true
  | .replaceChild newChild _ | .appendChild newChild _ => newChild.Printable
  | .build env => RawEnvironment env
  | .deleteChild _ | .removeChild _ _ | .extract | .toString | .copy => True

def BuilderCall.Printable : BuilderCall → Prop
  | .edit env op => RawEnvironment env ∧ op.Printable
  | .createFromData template refresh data left =>
      RawEnvironment template ∧ RawEnvironment refresh ∧ data.Printable ∧ membersPrintable left
  | .toString | .extract => True

def SessionCall.Printable : SessionCall → Prop
  | .document call => call.Printable
  | .builder call => call.Printable

theorem printable_mutate
    {d : JSONDocument} (hd : d.value.Printable) {f : Value → Except Failure Value}
    (hf : Gives Value.Printable (f d.value)) : (d.mutate f).value.Printable := by
  change (after (update f) d).value.Printable
  cases hresult : f d.value with
  | error e => rwa [after_of_error (update_refused hresult)]
  | ok value =>
      rw [after_of_ok (update_run hresult)]
      exact hf value hresult

theorem printable_call
    {d : JSONDocument} (hd : d.value.Printable) {call : DocumentCall} (hcall : call.Printable) :
    (d.call call).value.Printable := by
  cases call with
  | insertChild newChild path => exact printable_mutate hd (gives_insertChild hd hcall.1 hcall.2)
  | replaceChild newChild path => exact printable_mutate hd (gives_replaceChild hd hcall)
  | deleteChild path => exact printable_mutate hd (gives_deleteChild hd)
  | appendChild newChild path => exact printable_mutate hd (gives_appendChild hd hcall)
  | removeChild delChild path => exact printable_mutate hd (gives_removeChild hd delChild)
  | extract => exact printable_mutate hd (Gives.ok (membersPrintable_iff.2 (by simp)))
  | copy => exact hd
  | toString =>
      change (after (read serialize) d).value.Printable
      rwa [value_after_read]
  | build env =>
      have hrecord : Gives membersPrintable (d.value.getObject >>= ovlDatabaseRecord env) :=
        (gives_getObject hd).bind fun _ ho => gives_ovlDatabaseRecord hcall ho
      rw [JSONDocument.call]
      split
      · rename_i record hresult
        exact hrecord record hresult
      · exact hd

theorem printable_builderCall
    {d : JSONDocument} (hd : d.value.Printable) (printed : Value) {call : BuilderCall}
    (hcall : call.Printable) : (d.builderCall printed call).value.Printable := by
  cases call with
  | edit env op =>
      change (onRecord (builderEdit env op) d.value).Printable
      cases hvalue : d.value with
      | object record =>
          rw [hvalue] at hd
          exact membersPrintable_builderEdit hcall.1 hcall.2 hd
      | _ => rwa [hvalue] at hd
  | createFromData template refresh data left =>
      obtain ⟨htemplate, hrefresh, hdata, hleft⟩ := hcall
      have hrecord : Gives membersPrintable (data.getObject >>= createFromData template refresh) :=
        (gives_getObject hdata).bind fun _ ho => gives_createFromData htemplate hrefresh ho
      rw [JSONDocument.builderCall]
      split
      · rename_i record hresult
        exact hrecord record hresult
      · exact hleft
  | toString =>
      change (after (read serialize) (mark d)).value.Printable
      rwa [value_after_read]
  | extract => exact hd

/-- One call of a session. -/
theorem printable_step
    {session : Session} (hsession : session.value.Printable) {call : SessionCall}
    (hcall : call.Printable) : (session.step call).value.Printable := by
  cases session with
  | document d =>
      cases call with
      | document call => exact printable_call hsession hcall
      | builder call => exact hsession
  | builder d printed =>
      cases call with
      | document call => exact hsession
      | builder call => exact printable_builderCall hsession printed hcall

theorem printable_run
    {session : Session} (hsession : session.value.Printable) {calls : List SessionCall}
    (hcalls : ∀ call ∈ calls, call.Printable) :
    (run Session.step session calls).value.Printable := by
  induction calls generalizing session with
  | nil => exact hsession
  | cons call calls ih =>
      exact ih (printable_step hsession (hcalls call (by simp)))
        fun other hother => hcalls other (List.mem_cons_of_mem _ hother)

section Reading

variable (decimalText : List Char → String)

theorem read_empty : JsonReader.read decimalText "\x7b\x7d" = .ok (some []) := by
  rfl

/-- The text of a printable document is read back. -/
theorem read_serialize
    {v : Value} (hv : v.Printable) {text : String} (htext : serialize v = .ok text) :
    ∃ ast, v = .object ast ∧
      JsonReader.read decimalText text = .ok (some (rereadMembers decimalText ast)) := by
  cases v with
  | object ast =>
      refine ⟨ast, rfl, ?_⟩
      cases ast with
      | nil =>
          rw [← Except.ok.inj htext]
          exact read_empty decimalText
      | cons m ast =>
          rw [serialize, JsonWriter.write_ok (List.cons_ne_nil m ast), Except.ok.injEq] at htext
          rw [← htext]
          exact read_writeValue_reread decimalText hv
  | _ => simp [serialize] at htext

end Reading

end ArtdaqDatabase
