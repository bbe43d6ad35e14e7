import ArtdaqDatabase.InPlaceUpdate
import ArtdaqDatabase.JsonMutators
import ArtdaqDatabase.NamedPaths

/-!
# Paths in a JSON document

`insertChild`, `replaceChild` and `deleteChild` walk down the names of a path and
change the object at its end in place.  Their checks differ, but each comes before
the only change, so a call either puts one changed object back or leaves the document
alone.
-/

namespace ArtdaqDatabase

open OrderedTable InPlaceUpdate NamedPaths

/-! ## Objects as trees -/

/-- The child under a name. -/
def childValue (token : String) : Value → Option Value
  | .object o => lookup token o
  | _ => none

def graftValue (token : String) (child : Value) : Value → Value
  | .object o => .object (set token child o)
  | v => v

instance : Branching String Value where
  child := childValue
  graft := graftValue
  child_graft {token v child} hchild token' child' := by
    cases v with
    | object o => exact lookup_set token token' child' o
    | _ => cases hchild
  graft_child {token v child} hchild := by
    cases v with
    | object o => exact congrArg Value.object (set_of_lookup hchild)
    | _ => cases hchild
  graft_graft {token v child} hchild child' child'' := by
    cases v with
    | object o => exact congrArg Value.object (set_set token child'' child' o)
    | _ => cases hchild

theorem find_object (token : String) (path : List String) (o : Object) :
    find (token :: path) (Value.object o) = (lookup token o).bind (find path) := rfl

/-- The search of the code is the search in the tree. -/
theorem findChildValue_eq_ok_iff {path : List String} {v w : Value} :
    findChildValue path v = .ok w ↔ find path v = some w := by
  induction path generalizing v with
  | nil => simp [findChildValue]
  | cons token path ih =>
      cases v with
      | object o =>
          rw [find_object, findChildValue]
          cases lookup token o with
          | none => simp
          | some child => exact ih
      | _ => simp [findChildValue, find_cons, Branching.child, childValue]

/-! ## The walk -/

namespace JSONDocumentCall

/-- The object that a name of the path is looked up in at the end. -/
def lastObject (token : String) : Value → Except Failure Object
  | .object o => .ok o
  | _ => .error (.notFound token)

/-- The child that a name before the end of the path leads to. -/
def nextChild (token : String) : Value → Except Failure Value
  | .object o =>
      match lookup token o with
      | some matchedValue => .ok matchedValue
      | none => .error (.notFound token)
  | _ => .error .badGet

/-- The recursion of the mutators: the object at the end of the path is changed in its
place. -/
def recurse (change : String → InPlace Failure Object Value) :
    List String → InPlace Failure Value Value
  | [] => throw (.outOfRange "vector::_M_range_check")
  | token :: path =>
      if path = [] then within (lastObject token) (fun o _ => .object o) (change token)
      else within (nextChild token) (graftValue token) (recurse change path)

/-- A check that finds what is returned, and the change after it. -/
def checkedChange (check : Object → Except Failure Value) (change : Object → Object) :
    InPlace Failure Object Value := do
  let returned ← fetch check
  write change
  return returned

/-- The member that is exchanged or erased. -/
def presentMember (token : String) (childDocument : Object) : Except Failure Value :=
  if count token childDocument = 0 then .error (.notFound token) else valueAt token childDocument

/-- The end of `insertChild`: the child must not be there. -/
def insertAt (newValue : Value) (token : String) : InPlace Failure Object Value :=
  checkedChange
    (fun childDocument =>
      if count token childDocument ≠ 0 then .error (.notFound token) else .ok newValue)
    (set token newValue)

/-- The end of `replaceChild`: the child must be there, and is exchanged. -/
def replaceAt (newValue : Value) (token : String) : InPlace Failure Object Value :=
  checkedChange (presentMember token) (set token newValue)

/-- The end of `deleteChild`: the first child of the name goes. -/
def eraseAt (token : String) : InPlace Failure Object Value :=
  checkedChange (presentMember token) (deleteAt token)

/-- `JSONDocument::findChildValue`. -/
def findChildValue (path : String) (document : Value) : Except Failure Value := do
  let tokens ← splitPathValidate path "findChildValue"
  ArtdaqDatabase.findChildValue tokens document

/-- `JSONDocument::insertChild`, which returns the inserted child. -/
def insertChild (newChild : Value) (path : String) : InPlace Failure Value Value := do
  let tokens ← lift (splitPathValidate path "insertChild")
  let newValue ← lift (getPayloadValueForKey (tokens.getLastD "") newChild)
  recurse (insertAt newValue) tokens

/-- `JSONDocument::replaceChild`, which returns the old child under the path. -/
def replaceChild (newChild : Value) (path : String) : InPlace Failure Value Value := do
  let tokens ← lift (splitPathValidate path "replaceChild")
  let newValue ← lift (getPayloadValueForKey (tokens.getLastD "") newChild)
  let replaced ← recurse (replaceAt newValue) tokens
  return .object [(path, replaced)]

/-- `JSONDocument::deleteChild`, which returns the old child. -/
def deleteChild (path : String) : InPlace Failure Value Value := do
  let tokens ← lift (splitPathValidate path "deleteChild")
  recurse eraseAt tokens

end JSONDocumentCall

/-! ## What the walk does -/

theorem lastObject_eq_ok_iff {token : String} {v : Value} {o : Object} :
    JSONDocumentCall.lastObject token v = .ok o ↔ v = .object o := by
  cases v <;> simp [JSONDocumentCall.lastObject]

theorem nextChild_eq_ok_iff {token : String} {v child : Value} :
    JSONDocumentCall.nextChild token v = .ok child ↔ childValue token v = some child := by
  cases v with
  | object o =>
      rw [JSONDocumentCall.nextChild, childValue]
      cases lookup token o <;> simp
  | _ => simp [JSONDocumentCall.nextChild, childValue]

section Walk

variable {change : String → InPlace Failure Object Value}

/-- A walk returns exactly if it finds an object at the end of its path and the change
returns there; it puts the changed object back. -/
theorem recurse_eq_ok_iff
    {parent : List String} {token : String} {v v' returned : Value} :
    JSONDocumentCall.recurse change (parent ++ [token]) v = .ok returned v' ↔
      ∃ o o', find parent v = some (.object o) ∧ change token o = .ok returned o' ∧
        v' = put parent (.object o') v := by
  induction parent generalizing v v' with
  | nil =>
      rw [List.nil_append, JSONDocumentCall.recurse, if_pos rfl, within_run_iff]
      simp only [lastObject_eq_ok_iff, find_nil, Option.some.injEq, put]
  | cons first rest ih =>
      rw [List.cons_append, JSONDocumentCall.recurse, if_neg (by simp), within_run_iff]
      simp only [nextChild_eq_ok_iff]
      constructor
      · rintro ⟨child, child', hchild, hrun, rfl⟩
        obtain ⟨o, o', hfound, hchange, rfl⟩ := ih.1 hrun
        exact ⟨o, o', Option.bind_eq_some_iff.2 ⟨child, hchild, hfound⟩, hchange,
          (put_cons hchild rest _).symm⟩
      · rintro ⟨o, o', hfound, hchange, rfl⟩
        obtain ⟨child, hchild, hrest⟩ := Option.bind_eq_some_iff.1 hfound
        exact ⟨child, _, hchild, ih.2 ⟨o, o', hrest, hchange, rfl⟩, put_cons hchild rest _⟩

/-- If a change that throws leaves its object alone, a walk that throws leaves the document
alone. -/
theorem recurse_atomic (hchange : ∀ token, Atomic (change token)) (path : List String) :
    Atomic (JSONDocumentCall.recurse change path) := by
  induction path with
  | nil => exact Atomic.throw _
  | cons token rest ih =>
      rw [JSONDocumentCall.recurse]
      split
      · refine Atomic.within (fun v o ho => ?_) (hchange token)
        exact (lastObject_eq_ok_iff.1 ho).symm
      · refine Atomic.within (fun v child hchild => ?_) ih
        have hfound : Branching.child token v = some child := nextChild_eq_ok_iff.1 hchild
        exact Branching.graft_child hfound

end Walk

/-! ## The changes at the end -/

theorem checkedChange_run_iff
    {check : Object → Except Failure Value} {change : Object → Object} {returned : Value}
    {o o' : Object} :
    JSONDocumentCall.checkedChange check change o = .ok returned o' ↔
      check o = .ok returned ∧ o' = change o := by
  rw [JSONDocumentCall.checkedChange]
  cases hcheck : check o with
  | ok found =>
      have hrun : (do
          write change
          return found : InPlace Failure Object Value) o = .ok found (change o) := rfl
      rw [bind_run (fetch_ok hcheck), hrun]
      simp [eq_comm]
  | error e =>
      rw [bind_error (fetch_error hcheck)]
      simp

theorem checkedChange_atomic (check : Object → Except Failure Value) (change : Object → Object) :
    Atomic (JSONDocumentCall.checkedChange check change) :=
  Atomic.fetch_bind fun returned => Atomic.write_bind_pure change returned

section Changes

variable {newValue returned : Value} {token : String} {o o' : Object}

theorem presentMember_eq_ok_iff :
    JSONDocumentCall.presentMember token o = .ok returned ↔ lookup token o = some returned := by
  unfold JSONDocumentCall.presentMember
  split
  · rename_i hcount
    rw [count_eq_zero_iff] at hcount
    simp [hcount]
  · exact valueAt_eq_ok

theorem insertAt_run_iff :
    JSONDocumentCall.insertAt newValue token o = .ok returned o' ↔
      lookup token o = none ∧ returned = newValue ∧ o' = set token newValue o := by
  rw [JSONDocumentCall.insertAt, checkedChange_run_iff, ← count_eq_zero_iff]
  by_cases hcount : count token o = 0
  · simp [hcount, eq_comm]
  · simp [hcount]

theorem replaceAt_run_iff :
    JSONDocumentCall.replaceAt newValue token o = .ok returned o' ↔
      lookup token o = some returned ∧ o' = set token newValue o := by
  rw [JSONDocumentCall.replaceAt, checkedChange_run_iff, presentMember_eq_ok_iff]

theorem eraseAt_run_iff :
    JSONDocumentCall.eraseAt token o = .ok returned o' ↔
      lookup token o = some returned ∧ o' = deleteAt token o := by
  rw [JSONDocumentCall.eraseAt, checkedChange_run_iff, presentMember_eq_ok_iff]

end Changes

/-! ## The calls -/

/-- A path has a last name, and the names before it lead to its parent. -/
theorem exists_splitPath_eq {path : String} (hpath : splitPath path ≠ []) :
    ∃ parent token, splitPath path = parent ++ [token] :=
  ⟨_, _, (List.dropLast_append_getLast hpath).symm⟩

/-- A name that can stand between the points of a path. -/
def PathName (name : String) : Prop :=
  name ≠ "" ∧ ∀ c ∈ name.toList, (decide (c = '.') || isSpace c) = false

/-- Names that are joined by points are the names of the path. -/
theorem splitPath_intercalate {names : List String} (hnames : ∀ name ∈ names, PathName name) :
    splitPath (String.ofList (List.intercalate ['.'] (names.map String.toList))) = names := by
  induction names with
  | nil => decide
  | cons name rest ih =>
      obtain ⟨hne, hplain⟩ := hnames name (by simp)
      have hrest := ih fun other hother => hnames other (List.mem_cons_of_mem _ hother)
      have hkept : decide (name.toList ≠ []) = true := by simpa using hne
      cases rest with
      | nil =>
          simp [splitPath, List.splitOnP_eq_singleton hplain, hne]
      | cons next rest =>
          simp only [splitPath, String.toList_ofList] at hrest
          simp only [splitPath, String.toList_ofList, List.map_cons, List.intercalate_cons_cons,
            List.append_assoc, List.singleton_append]
          rw [List.splitOnP_append_cons_of_forall_mem hplain '.' (by simp), List.filter_cons,
            if_pos hkept, List.map_cons, String.ofList_toList]
          rw [List.map_cons] at hrest
          rw [hrest]

theorem splitPathValidate_eq_ok_iff {path caller : String} {tokens : List String} :
    splitPathValidate path caller = .ok tokens ↔ splitPath path ≠ [] ∧ tokens = splitPath path := by
  by_cases hempty : path = ""
  · subst hempty
    have hnone : splitPath "" = [] := by decide
    simp [splitPathValidate, validate, hnone, bind, Except.bind]
  · by_cases hnone : splitPath path = []
    · simp [splitPathValidate, validate, hempty, hnone, bind, Except.bind]
    · simp [splitPathValidate, validate, hempty, hnone, bind, Except.bind, pure, Except.pure,
        eq_comm]

/-- The payload of a new child can be read exactly if the child is an object. -/
theorem getPayloadValueForKey_returns_iff (key : String) {v : Value} :
    (∃ payload, getPayloadValueForKey key v = .ok payload) ↔ ∃ o, v = .object o := by
  cases v with
  | object o =>
      simp only [Value.object.injEq, exists_eq', iff_true]
      simp only [getPayloadValueForKey, Value.getObject, bind, Except.bind]
      by_cases hcount : count "payload" o = 1
      · obtain ⟨value, hvalue⟩ := lookup_isSome_of_count_pos (k := "payload") (t := o) (by omega)
        rw [if_pos hcount, valueAt_eq_ok.2 hvalue]
        cases value with
        | object payload =>
            by_cases hkey : count key payload = 1
            · obtain ⟨inner, hinner⟩ := lookup_isSome_of_count_pos (k := key) (t := payload)
                (by omega)
              exact ⟨inner, by simp only [if_pos hkey, valueAt_eq_ok.2 hinner]⟩
            · exact ⟨.object payload, by simp only [if_neg hkey]⟩
        | _ => exact ⟨_, rfl⟩
      · rw [if_neg hcount]
        split <;> exact ⟨_, rfl⟩
  | _ => simp [getPayloadValueForKey, Value.getObject, bind, Except.bind]

section Calls

variable {path token : String} {parent : List String} (hpath : splitPath path = parent ++ [token])
  {newChild document document' returned : Value}
include hpath

theorem findChildValue_path_eq_ok_iff {child : Value} :
    JSONDocumentCall.findChildValue path document = .ok child ↔
      ∃ o, find parent document = some (.object o) ∧ lookup token o = some child := by
  have hne : splitPath path ≠ [] := by simp [hpath]
  rw [JSONDocumentCall.findChildValue, splitPathValidate_eq_ok_iff.2 ⟨hne, rfl⟩]
  change findChildValue (splitPath path) document = .ok child ↔ _
  rw [findChildValue_eq_ok_iff, hpath, find_append, Option.bind_eq_some_iff]
  constructor
  · rintro ⟨v, hv, hchild⟩
    cases v with
    | object o =>
        rw [find_object, Option.bind_eq_some_iff] at hchild
        obtain ⟨child', hlookup, hsame⟩ := hchild
        rw [find_nil, Option.some.injEq] at hsame
        exact ⟨o, hv, hsame ▸ hlookup⟩
    | _ => cases hchild
  · rintro ⟨o, ho, hlookup⟩
    exact ⟨.object o, ho, by rw [find_object, hlookup]; rfl⟩

theorem insertChild_run_iff :
    JSONDocumentCall.insertChild newChild path document = .ok returned document' ↔
      getPayloadValueForKey token newChild = .ok returned ∧
        ∃ o, find parent document = some (.object o) ∧ lookup token o = none ∧
          document' = put parent (.object (set token returned o)) document := by
  have hne : splitPath path ≠ [] := by simp [hpath]
  have htokens : splitPathValidate path "insertChild" = .ok (parent ++ [token]) :=
    splitPathValidate_eq_ok_iff.2 ⟨hne, hpath.symm⟩
  simp only [JSONDocumentCall.insertChild, bind_run_iff, lift_run_iff, htokens, Except.ok.injEq]
  constructor
  · rintro ⟨_, _, ⟨rfl, rfl⟩, newValue, _, ⟨hpayload, rfl⟩, hrun⟩
    obtain ⟨o, o', hfound, hchange, rfl⟩ := recurse_eq_ok_iff.1 hrun
    obtain ⟨habsent, rfl, rfl⟩ := insertAt_run_iff.1 hchange
    rw [List.getLastD_concat] at hpayload
    exact ⟨hpayload, o, hfound, habsent, rfl⟩
  · rintro ⟨hpayload, o, hfound, habsent, rfl⟩
    refine ⟨_, _, ⟨rfl, rfl⟩, returned, _, ⟨?_, rfl⟩,
      recurse_eq_ok_iff.2 ⟨o, _, hfound, insertAt_run_iff.2 ⟨habsent, rfl, rfl⟩, rfl⟩⟩
    rw [List.getLastD_concat]
    exact hpayload

theorem replaceChild_run_iff :
    JSONDocumentCall.replaceChild newChild path document = .ok returned document' ↔
      ∃ newValue old o, getPayloadValueForKey token newChild = .ok newValue ∧
        find parent document = some (.object o) ∧ lookup token o = some old ∧
        returned = .object [(path, old)] ∧
        document' = put parent (.object (set token newValue o)) document := by
  have hne : splitPath path ≠ [] := by simp [hpath]
  have htokens : splitPathValidate path "replaceChild" = .ok (parent ++ [token]) :=
    splitPathValidate_eq_ok_iff.2 ⟨hne, hpath.symm⟩
  simp only [JSONDocumentCall.replaceChild, bind_run_iff, lift_run_iff, htokens, Except.ok.injEq]
  constructor
  · rintro ⟨_, _, ⟨rfl, rfl⟩, newValue, _, ⟨hpayload, rfl⟩, old, _, hrun, hreturn⟩
    obtain ⟨o, o', hfound, hchange, rfl⟩ := recurse_eq_ok_iff.1 hrun
    obtain ⟨hold, rfl⟩ := replaceAt_run_iff.1 hchange
    rw [List.getLastD_concat] at hpayload
    cases hreturn
    exact ⟨newValue, old, o, hpayload, hfound, hold, rfl, rfl⟩
  · rintro ⟨newValue, old, o, hpayload, hfound, hold, rfl, rfl⟩
    refine ⟨_, _, ⟨rfl, rfl⟩, newValue, _, ⟨?_, rfl⟩, old, _,
      recurse_eq_ok_iff.2 ⟨o, _, hfound, replaceAt_run_iff.2 ⟨hold, rfl⟩, rfl⟩, rfl⟩
    rw [List.getLastD_concat]
    exact hpayload

theorem deleteChild_run_iff :
    JSONDocumentCall.deleteChild path document = .ok returned document' ↔
      ∃ o, find parent document = some (.object o) ∧ lookup token o = some returned ∧
        document' = put parent (.object (deleteAt token o)) document := by
  have hne : splitPath path ≠ [] := by simp [hpath]
  have htokens : splitPathValidate path "deleteChild" = .ok (parent ++ [token]) :=
    splitPathValidate_eq_ok_iff.2 ⟨hne, hpath.symm⟩
  simp only [JSONDocumentCall.deleteChild, bind_run_iff, lift_run_iff, htokens, Except.ok.injEq]
  constructor
  · rintro ⟨_, _, ⟨rfl, rfl⟩, hrun⟩
    obtain ⟨o, o', hfound, hchange, rfl⟩ := recurse_eq_ok_iff.1 hrun
    obtain ⟨hold, rfl⟩ := eraseAt_run_iff.1 hchange
    exact ⟨o, hfound, hold, rfl⟩
  · rintro ⟨o, hfound, hold, rfl⟩
    exact ⟨_, _, ⟨rfl, rfl⟩,
      recurse_eq_ok_iff.2 ⟨o, _, hfound, eraseAt_run_iff.2 ⟨hold, rfl⟩, rfl⟩⟩

end Calls

/-! ## The mutators without their results -/

theorem updateParent_eq_ok_iff
    {change : String → Object → Except Failure Object} {parent : List String} {token : String}
    {v v' : Value} :
    updateParent change (parent ++ [token]) v = .ok v' ↔
      ∃ o o', find parent v = some (.object o) ∧ change token o = .ok o' ∧
        v' = put parent (.object o') v := by
  induction parent generalizing v v' with
  | nil =>
      cases v with
      | object o =>
          simp only [List.nil_append, updateParent, bind_eq_ok, pure, Except.pure, find_nil,
            Option.some.injEq, Value.object.injEq, put, Except.ok.injEq]
          constructor
          · rintro ⟨o', hchange, rfl⟩
            exact ⟨o, o', rfl, hchange, rfl⟩
          · rintro ⟨_, o', rfl, hchange, rfl⟩
            exact ⟨o', hchange, rfl⟩
      | _ => simp [updateParent]
  | cons first rest ih =>
      obtain ⟨next, tail, htail⟩ : ∃ next tail, rest ++ [token] = next :: tail :=
        List.exists_cons_of_ne_nil (by simp)
      cases v with
      | object o =>
          rw [List.cons_append, htail, updateParent, find_object, ← htail]
          · cases hlookup : lookup first o with
            | none => simp
            | some child =>
                have hput : ∀ s, put (first :: rest) s (Value.object o) =
                    .object (set first (put rest s child) o) := fun s => put_cons hlookup rest s
                simp only [bind_eq_ok, ih, pure, Except.pure, Except.ok.injEq, Option.bind_some,
                  hput]
                constructor
                · rintro ⟨_, ⟨o₁, o₂, hfound, hchange, rfl⟩, rfl⟩
                  exact ⟨o₁, o₂, hfound, hchange, rfl⟩
                · rintro ⟨o₁, o₂, hfound, hchange, rfl⟩
                  exact ⟨_, ⟨o₁, o₂, hfound, hchange, rfl⟩, rfl⟩
          · simp
      | _ => simp [updateParent, htail, find_cons, Branching.child, childValue]

section Agreement

variable {path : String} {newChild document document' : Value}

theorem updateParent_agrees
    {change : String → Object → Except Failure Object}
    {act : String → InPlace Failure Object Value}
    (hchange : ∀ token o o', change token o = .ok o' ↔ ∃ returned, act token o = .ok returned o')
    {tokens : List String} (htokens : tokens ≠ []) :
    updateParent change tokens document = .ok document' ↔
      ∃ returned, JSONDocumentCall.recurse act tokens document = .ok returned document' := by
  rw [← List.dropLast_append_getLast htokens]
  simp only [updateParent_eq_ok_iff, recurse_eq_ok_iff, hchange]
  constructor
  · rintro ⟨o, o', hfound, ⟨returned, hrun⟩, rfl⟩
    exact ⟨returned, o, o', hfound, hrun, rfl⟩
  · rintro ⟨returned, o, o', hfound, hrun, rfl⟩
    exact ⟨o, o', hfound, ⟨returned, hrun⟩, rfl⟩

/-- The mutators that give no result are these calls without their results. -/
theorem insertChild_agrees :
    insertChild newChild path document = .ok document' ↔
      ∃ returned, JSONDocumentCall.insertChild newChild path document = .ok returned document' := by
  have hchange : ∀ newValue token o o',
      (if count token o ≠ 0 then .error (.notFound token) else .ok (set token newValue o) :
          Except Failure Object) = .ok o' ↔
        ∃ returned, JSONDocumentCall.insertAt newValue token o = .ok returned o' := by
    intro newValue token o o'
    simp only [insertAt_run_iff, ← count_eq_zero_iff]
    by_cases hcount : count token o = 0
    · simp [hcount, eq_comm]
    · simp [hcount]
  simp only [insertChild, JSONDocumentCall.insertChild, bind_eq_ok, bind_run_iff, lift_run_iff,
    splitPathValidate_eq_ok_iff]
  constructor
  · rintro ⟨tokens, ⟨hpath, rfl⟩, newValue, hpayload, hrun⟩
    obtain ⟨returned, hreturned⟩ := (updateParent_agrees (hchange newValue) hpath).1 hrun
    exact ⟨returned, _, _, ⟨⟨hpath, rfl⟩, rfl⟩, newValue, _, ⟨hpayload, rfl⟩, hreturned⟩
  · rintro ⟨returned, tokens, _, ⟨⟨hpath, rfl⟩, rfl⟩, newValue, _, ⟨hpayload, rfl⟩, hrun⟩
    exact ⟨_, ⟨hpath, rfl⟩, newValue, hpayload,
      (updateParent_agrees (hchange newValue) hpath).2 ⟨returned, hrun⟩⟩

theorem replaceChild_agrees :
    replaceChild newChild path document = .ok document' ↔
      ∃ returned, JSONDocumentCall.replaceChild newChild path document =
        .ok returned document' := by
  have hchange : ∀ newValue token o o',
      (if count token o = 0 then .error (.notFound token) else .ok (set token newValue o) :
          Except Failure Object) = .ok o' ↔
        ∃ returned, JSONDocumentCall.replaceAt newValue token o = .ok returned o' := by
    intro newValue token o o'
    simp only [replaceAt_run_iff]
    cases hlookup : lookup token o with
    | none => simp [count_eq_zero_iff.2 hlookup]
    | some old => simp [(count_pos_of_lookup hlookup).ne', eq_comm]
  simp only [replaceChild, JSONDocumentCall.replaceChild, bind_eq_ok, bind_run_iff, lift_run_iff,
    splitPathValidate_eq_ok_iff]
  constructor
  · rintro ⟨tokens, ⟨hpath, rfl⟩, newValue, hpayload, hrun⟩
    obtain ⟨old, hreturned⟩ := (updateParent_agrees (hchange newValue) hpath).1 hrun
    exact ⟨_, _, _, ⟨⟨hpath, rfl⟩, rfl⟩, newValue, _, ⟨hpayload, rfl⟩, old, _, hreturned, rfl⟩
  · rintro ⟨returned, tokens, _, ⟨⟨hpath, rfl⟩, rfl⟩, newValue, _, ⟨hpayload, rfl⟩, old, _, hrun,
      hreturn⟩
    cases hreturn
    exact ⟨_, ⟨hpath, rfl⟩, newValue, hpayload,
      (updateParent_agrees (hchange newValue) hpath).2 ⟨old, hrun⟩⟩

theorem deleteChild_agrees :
    deleteChild path document = .ok document' ↔
      ∃ returned, JSONDocumentCall.deleteChild path document = .ok returned document' := by
  have hchange : ∀ token o o',
      (if count token o = 0 then .error (.notFound token) else .ok (deleteAt token o) :
          Except Failure Object) = .ok o' ↔
        ∃ returned, JSONDocumentCall.eraseAt token o = .ok returned o' := by
    intro token o o'
    simp only [eraseAt_run_iff]
    cases hlookup : lookup token o with
    | none => simp [count_eq_zero_iff.2 hlookup]
    | some old => simp [(count_pos_of_lookup hlookup).ne', eq_comm]
  simp only [deleteChild, JSONDocumentCall.deleteChild, bind_eq_ok, bind_run_iff, lift_run_iff,
    splitPathValidate_eq_ok_iff]
  constructor
  · rintro ⟨tokens, ⟨hpath, rfl⟩, hrun⟩
    obtain ⟨returned, hreturned⟩ := (updateParent_agrees hchange hpath).1 hrun
    exact ⟨returned, _, _, ⟨⟨hpath, rfl⟩, rfl⟩, hreturned⟩
  · rintro ⟨returned, tokens, _, ⟨⟨hpath, rfl⟩, rfl⟩, hrun⟩
    exact ⟨_, ⟨hpath, rfl⟩, (updateParent_agrees hchange hpath).2 ⟨returned, hrun⟩⟩

end Agreement

/-! ## The path algebra -/

inductive PathEdit where
  | insert (newChild : Value)
  | replace (newChild : Value)
  | delete

/-- The call of an edit. -/
def PathEdit.run (path : String) : PathEdit → InPlace Failure Value Value
  | .insert newChild => JSONDocumentCall.insertChild newChild path
  | .replace newChild => JSONDocumentCall.replaceChild newChild path
  | .delete => JSONDocumentCall.deleteChild path

/-- The parent of the path is there and is the object. -/
def ParentObject (path : String) (document : Value) (parent : Object) : Prop :=
  find (splitPath path).dropLast document = some (.object parent)

/-- The child is found at the path. -/
def Found (path : String) (document child : Value) : Prop :=
  JSONDocumentCall.findChildValue path document = .ok child

/-- The payload of a new child for a path. -/
def NewPayload (path : String) (newChild payload : Value) : Prop :=
  getPayloadValueForKey ((splitPath path).getLastD "") newChild = .ok payload

/-- No path of the two is a prefix of the other. -/
def Beside (path other : String) : Prop :=
  ¬ splitPath other <+: splitPath path ∧ ¬ splitPath path <+: splitPath other

/-- When the edits of a path succeed, what they return, and what is found afterwards. -/
structure PathAlgebra (path : String) (newChild document : Value) : Prop where
  insert_returns_iff :
    (∃ returned document', PathEdit.run path (.insert newChild) document =
        .ok returned document') ↔
      (∃ o, newChild = .object o) ∧ (∃ parent, ParentObject path document parent) ∧
        ¬ ∃ child, Found path document child
  replace_returns_iff :
    (∃ returned document', PathEdit.run path (.replace newChild) document =
        .ok returned document') ↔
      (∃ o, newChild = .object o) ∧ ∃ child, Found path document child
  delete_returns_iff :
    (∃ returned document', PathEdit.run path .delete document = .ok returned document') ↔
      ∃ child, Found path document child
  insert_found : ∀ returned document',
    PathEdit.run path (.insert newChild) document = .ok returned document' →
      NewPayload path newChild returned ∧ Found path document' returned
  replace_found : ∀ returned document',
    PathEdit.run path (.replace newChild) document = .ok returned document' →
      (∃ old, returned = .object [(path, old)] ∧ Found path document old) ∧
        ∃ payload, NewPayload path newChild payload ∧ Found path document' payload
  delete_found : ∀ returned document' parent,
    PathEdit.run path .delete document = .ok returned document' →
      ParentObject path document parent →
        Found path document returned ∧
          ((∃ child, Found path document' child) ↔
            1 < count ((splitPath path).getLastD "") parent)
  unchanged : ∀ (edit : PathEdit) returned document',
    edit.run path document = .ok returned document' →
      ∀ other, Beside path other → ∀ child,
        Found other document' child ↔ Found other document child
  undone : ∀ returned document',
    PathEdit.run path (.insert newChild) document = .ok returned document' →
      PathEdit.run path .delete document' = .ok returned document
  throws : ∀ (edit : PathEdit) e document',
    edit.run path document = .error e document' → document' = document

theorem found_iff {path : String} {document child : Value} :
    Found path document child ↔
      splitPath path ≠ [] ∧ find (splitPath path) document = some child := by
  rw [Found, JSONDocumentCall.findChildValue, bind_eq_ok]
  constructor
  · rintro ⟨tokens, htokens, hfound⟩
    obtain ⟨hpath, rfl⟩ := splitPathValidate_eq_ok_iff.1 htokens
    exact ⟨hpath, findChildValue_eq_ok_iff.1 hfound⟩
  · rintro ⟨hpath, hfound⟩
    exact ⟨_, splitPathValidate_eq_ok_iff.2 ⟨hpath, rfl⟩, findChildValue_eq_ok_iff.2 hfound⟩

section Algebra

variable {path token : String} {parent : List String} (hpath : splitPath path = parent ++ [token])
  {document : Value} {o o' : Object}
include hpath

theorem found_path_iff {child : Value} :
    Found path document child ↔
      ∃ o, find parent document = some (.object o) ∧ lookup token o = some child :=
  findChildValue_path_eq_ok_iff hpath

theorem parentObject_iff {p : Object} :
    ParentObject path document p ↔ find parent document = some (.object p) := by
  rw [ParentObject, hpath, List.dropLast_concat]

theorem newPayload_iff {newChild payload : Value} :
    NewPayload path newChild payload ↔ getPayloadValueForKey token newChild = .ok payload := by
  rw [NewPayload, hpath, List.getLastD_concat]

/-- A changed object at the end of the path has what its table says. -/
theorem found_put_iff (hfound : find parent document = some (.object o)) {child : Value} :
    Found path (put parent (.object o') document) child ↔ lookup token o' = some child := by
  have hparent : find parent (put parent (.object o') document) = some (.object o') := by
    have hbelow := find_put_below hfound (.object o') []
    rwa [List.append_nil] at hbelow
  rw [found_path_iff hpath, hparent]
  simp

/-- A path beside this one sees no change of the last name. -/
theorem find_put_of_beside
    (hfound : find parent document = some (.object o))
    (hothers : ∀ k, k ≠ token → lookup k o' = lookup k o) {other : String}
    (hbeside : Beside path other) :
    find (splitPath other) (put parent (.object o') document) =
      find (splitPath other) document := by
  obtain ⟨habove, hbelow⟩ := hbeside
  rw [hpath] at habove hbelow
  by_cases hparent : parent <+: splitPath other
  · obtain ⟨rest, hrest⟩ := hparent
    cases rest with
    | nil =>
        rw [List.append_nil] at hrest
        rw [← hrest] at habove
        exact absurd (List.prefix_append parent [token]) habove
    | cons k rest =>
        have hne : k ≠ token := by
          rintro rfl
          refine hbelow ⟨rest, ?_⟩
          rw [← hrest, List.append_assoc, List.singleton_append]
        rw [← hrest, find_put_below hfound, find_append, hfound, Option.bind_some, find_object,
          find_object, hothers k hne]
  · refine find_put_beside hfound _ (fun hprefix => habove ?_) hparent
    exact hprefix.trans (List.prefix_append parent [token])

end Algebra

theorem PathEdit.run_atomic (path : String) (edit : PathEdit) : Atomic (edit.run path) := by
  cases edit with
  | insert newChild =>
      refine Atomic.lift_bind fun tokens => Atomic.lift_bind fun newValue => ?_
      exact recurse_atomic (fun token => checkedChange_atomic _ _) tokens
  | replace newChild =>
      refine Atomic.lift_bind fun tokens => Atomic.lift_bind fun newValue => ?_
      exact (recurse_atomic (fun token => checkedChange_atomic _ _) tokens).bind_pure _
  | delete =>
      refine Atomic.lift_bind fun tokens => ?_
      exact recurse_atomic (fun token => checkedChange_atomic _ _) tokens

theorem unchanged_of_put
    {path token : String} {parent : List String} (hpath : splitPath path = parent ++ [token])
    {document : Value} {o o' : Object} (hfound : find parent document = some (.object o))
    (hothers : ∀ k, k ≠ token → lookup k o' = lookup k o) {other : String}
    (hbeside : Beside path other) (child : Value) :
    Found other (put parent (.object o') document) child ↔ Found other document child := by
  rw [found_iff, found_iff, find_put_of_beside hpath hfound hothers hbeside]

/-- The laws of the paths hold of every document. -/
theorem pathAlgebra_holds
    {path : String} (hpath : splitPath path ≠ []) (newChild document : Value) :
    PathAlgebra path newChild document := by
  obtain ⟨parent, token, htokens⟩ := exists_splitPath_eq hpath
  constructor
  case insert_returns_iff =>
    simp only [PathEdit.run, insertChild_run_iff htokens, parentObject_iff htokens,
      found_path_iff htokens, ← getPayloadValueForKey_returns_iff token]
    constructor
    · rintro ⟨payload, _, hpayload, o, hfound, habsent, rfl⟩
      refine ⟨⟨payload, hpayload⟩, ⟨o, hfound⟩, ?_⟩
      rintro ⟨child, o', hfound', hchild⟩
      rw [hfound, Option.some.injEq, Value.object.injEq] at hfound'
      rw [← hfound', habsent] at hchild
      cases hchild
    · rintro ⟨⟨payload, hpayload⟩, ⟨o, hfound⟩, hnone⟩
      have habsent : lookup token o = none := by
        cases hlookup : lookup token o with
        | none => rfl
        | some child => exact absurd ⟨child, o, hfound, hlookup⟩ hnone
      exact ⟨payload, _, hpayload, o, hfound, habsent, rfl⟩
  case replace_returns_iff =>
    simp only [PathEdit.run, replaceChild_run_iff htokens, found_path_iff htokens,
      ← getPayloadValueForKey_returns_iff token]
    constructor
    · rintro ⟨_, _, payload, old, o, hpayload, hfound, hold, rfl, rfl⟩
      exact ⟨⟨payload, hpayload⟩, old, o, hfound, hold⟩
    · rintro ⟨⟨payload, hpayload⟩, old, o, hfound, hold⟩
      exact ⟨_, _, payload, old, o, hpayload, hfound, hold, rfl, rfl⟩
  case delete_returns_iff =>
    simp only [PathEdit.run, deleteChild_run_iff htokens, found_path_iff htokens]
    constructor
    · rintro ⟨old, _, o, hfound, hold, rfl⟩
      exact ⟨old, o, hfound, hold⟩
    · rintro ⟨old, o, hfound, hold⟩
      exact ⟨old, _, o, hfound, hold, rfl⟩
  case insert_found =>
    intro returned document' hrun
    obtain ⟨hpayload, o, hfound, -, rfl⟩ := (insertChild_run_iff htokens).1 hrun
    exact ⟨(newPayload_iff htokens).2 hpayload,
      (found_put_iff htokens hfound).2 (lookup_set_self token returned o)⟩
  case replace_found =>
    intro returned document' hrun
    obtain ⟨payload, old, o, hpayload, hfound, hold, rfl, rfl⟩ :=
      (replaceChild_run_iff htokens).1 hrun
    exact ⟨⟨old, rfl, (found_path_iff htokens).2 ⟨o, hfound, hold⟩⟩,
      payload, (newPayload_iff htokens).2 hpayload,
      (found_put_iff htokens hfound).2 (lookup_set_self token payload o)⟩
  case delete_found =>
    intro returned document' object hrun hparent
    obtain ⟨o, hfound, hold, rfl⟩ := (deleteChild_run_iff htokens).1 hrun
    rw [parentObject_iff htokens, hfound, Option.some.injEq, Value.object.injEq] at hparent
    subst hparent
    refine ⟨(found_path_iff htokens).2 ⟨o, hfound, hold⟩, ?_⟩
    have hcount := count_deleteAt_self token o
    rw [htokens, List.getLastD_concat]
    simp only [found_put_iff htokens hfound]
    constructor
    · rintro ⟨child, hchild⟩
      have hpos := count_pos_of_lookup hchild
      omega
    · intro hmore
      exact lookup_isSome_of_count_pos (by omega)
  case unchanged =>
    intro edit returned document' hrun other hbeside child
    cases edit with
    | insert newChild =>
        obtain ⟨-, o, hfound, -, rfl⟩ := (insertChild_run_iff htokens).1 hrun
        exact unchanged_of_put htokens hfound (fun k hk => lookup_set_of_ne hk _ o) hbeside child
    | replace newChild =>
        obtain ⟨payload, old, o, -, hfound, -, -, rfl⟩ := (replaceChild_run_iff htokens).1 hrun
        exact unchanged_of_put htokens hfound (fun k hk => lookup_set_of_ne hk _ o) hbeside child
    | delete =>
        obtain ⟨o, hfound, -, rfl⟩ := (deleteChild_run_iff htokens).1 hrun
        exact unchanged_of_put htokens hfound (fun k hk => lookup_deleteAt_of_ne hk o) hbeside child
  case undone =>
    intro returned document' hrun
    obtain ⟨-, o, hfound, habsent, rfl⟩ := (insertChild_run_iff htokens).1 hrun
    have hparent := find_put_below hfound (.object (set token returned o)) []
    rw [List.append_nil, find_nil] at hparent
    refine (deleteChild_run_iff htokens).2 ⟨_, hparent, lookup_set_self token returned o, ?_⟩
    rw [put_put hfound, deleteAt_set_of_absent habsent, put_self hfound]
  case throws =>
    exact fun edit e document' hrun => edit.run_atomic path document e document' hrun

/-- A document with a nested object, a name with a blank and a name that occurs twice. -/
def nestedDocument : Value :=
  .object
    [("a", .object []), ("run number", .integer 1),
      ("twice", .integer 1), ("twice", .integer 2)]

theorem pathAlgebra_holds_nested :
    splitPath "a.b" = ["a", "b"] ∧
      PathAlgebra "a.b" (.object [("b", .integer 1)]) nestedDocument := by
  have hpath : splitPath "a.b" = ["a", "b"] := by decide
  exact ⟨hpath, pathAlgebra_holds (by simp [hpath]) _ _⟩

/-- An ancestor of the path changes with it; a name with a blank is searched as two names;
and of a name that occurs twice one child stays after the deletion. -/
theorem paths_see_edits_of_descendants :
    (∃ returned document',
      PathEdit.run "a.b" (.insert (.object [("b", .integer 1)])) nestedDocument =
          .ok returned document' ∧
        ¬ splitPath "a.b" <+: splitPath "a" ∧
        Found "a" nestedDocument (.object []) ∧
        ¬ Found "a" document' (.object [])) ∧
      (¬ ∃ returned document', PathEdit.run "run number" .delete nestedDocument =
        .ok returned document') ∧
      ∃ returned document', PathEdit.run "twice" .delete nestedDocument = .ok returned document' ∧
        Found "twice" document' (.integer 2) := by
  refine ⟨⟨_, _, rfl, by decide, rfl, ?_⟩, ?_, ⟨_, _, rfl, rfl⟩⟩
  · rintro ⟨⟩
  · rintro ⟨returned, document', ⟨⟩⟩

end ArtdaqDatabase
