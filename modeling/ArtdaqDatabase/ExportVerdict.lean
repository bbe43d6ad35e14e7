import ArtdaqDatabase.FhiclSections

/-!
# Exports that are cut short

A sequence or a table below the top level is filled until a key of the metadata is missing,
and what was pushed before is kept.  Whether an export is whole, is cut, or fails, can be
told from the data and the metadata in front of it: the verdict follows the conversion
without building anything.
-/

namespace ArtdaqDatabase

open OrderedTable

/-! ## Verdicts -/

inductive Verdict where
  | whole
  | cut
  | missing
  | broken
  deriving DecidableEq

namespace Verdict

/-- One after the other: a failure ends it, and a cut stays. -/
def andThen : Verdict → Verdict → Verdict
  | .whole, next => next
  | .cut, .whole => .cut
  | .cut, next => next
  | .missing, _ => .missing
  | .broken, _ => .broken

/-- A container that is filled with its items; a missing key ends the filling. -/
def filled : List Verdict → Verdict
  | [] => .whole
  | .missing :: _ => .cut
  | verdict :: rest => verdict.andThen (filled rest)

/-- The parameters of a section, where a missing key is a failure. -/
def all : List Verdict → Verdict
  | [] => .whole
  | verdict :: rest => verdict.andThen (all rest)

end Verdict

/-- A key that is missing, or any other failure. -/
def Failure.verdict : Failure → Verdict
  | .outOfRange _ => .missing
  | _ => .broken

section

variable {α : Type}

/-- What comes next, or the verdict of a failure. -/
def check (result : Except Failure α) (next : α → Verdict) : Verdict :=
  match result with
  | .ok a => next a
  | .error failure => failure.verdict

end

/-- A container without children in its metadata is cut, unless it is empty. -/
def containerVerdict (isEmpty : Bool) (children : Except Failure Object)
    (items : Object → List Verdict) : Verdict :=
  match children with
  | .ok children => .filled (items children)
  | .error failure => if isEmpty && failure.verdict = .missing then .whole else .filled [failure.verdict]

def protectionVerdict (metadataObject : Object) : Verdict :=
  if count "protection" metadataObject = 1 then
    check (stringAt "protection" metadataObject) fun _ => .whole
  else .whole

/-- The comment, the protection and the annotation of a parameter. -/
def finishVerdict (metadataObject : Object) (annotated : Bool) : Verdict :=
  check (stringAt "comment" metadataObject) fun _ =>
    (protectionVerdict metadataObject).andThen
      (if annotated then check (stringAt "annotation" metadataObject) fun _ => .whole else .whole)

/-- The data that a scalar of a type can have. -/
def scalarFits : ScalarTag → Value → Bool
  | _, .string _ => true
  | .boolean, .boolean _ => true
  | .number, .integer _ => true
  | .number, .decimal _ => true
  | _, _ => false

def atomVerdict (key : String) (metadata data : Value) (isEmpty : Bool)
    (elements members : Object → List Verdict) : Verdict :=
  check metadata.getObject fun metadataObject =>
  check (stringAt "type" metadataObject) fun metadataType =>
    let overrideComment := metadataType = "table" && isString data
    let typeName := if overrideComment then "string" else metadataType
    if isIncludeKey key then (if isString data then .whole else .broken)
    else check (stringAsTag typeName) fun type =>
      match type with
      | .scalar tag =>
          if scalarFits tag data then finishVerdict metadataObject (!overrideComment) else .broken
      | .sequence =>
          check data.getArray fun _ =>
            (containerVerdict isEmpty (objectAt "children" metadataObject) elements).andThen
              (finishVerdict metadataObject true)
      | .table =>
          check data.getObject fun _ =>
            (containerVerdict isEmpty (objectAt "children" metadataObject) members).andThen
              (finishVerdict metadataObject false)

/-- The verdict of an element, given the one of its atom. -/
def valueVerdict (data metadata : Value) (atom : Verdict) : Verdict :=
  match data with
  | .boolean _ | .integer _ | .decimal _ => .whole
  | .string _ =>
      check metadata.getObject fun metadataObject =>
      check (stringAt "type" metadataObject) fun _ => .whole
  | .object _ | .array _ => atom

mutual

/-- The verdict of a parameter. -/
def parameterVerdict (key : String) (metadata : Value) : Value → Verdict
  | .array values =>
      atomVerdict key metadata (.array values) values.isEmpty
        (fun children => elementVerdicts children 0 values) fun _ => []
  | .object members =>
      atomVerdict key metadata (.object members) members.isEmpty (fun _ => [])
        fun children => memberVerdicts children members
  | .string text => atomVerdict key metadata (.string text) true (fun _ => []) fun _ => []
  | .decimal text => atomVerdict key metadata (.decimal text) true (fun _ => []) fun _ => []
  | .integer number => atomVerdict key metadata (.integer number) true (fun _ => []) fun _ => []
  | .boolean flag => atomVerdict key metadata (.boolean flag) true (fun _ => []) fun _ => []

def elementVerdicts (children : Object) (idx : ℕ) : List Value → List Verdict
  | [] => []
  | v :: values =>
      (check (valueAt (toString idx) children) fun metadata =>
        valueVerdict v metadata (parameterVerdict (toString idx) metadata v)) ::
      elementVerdicts children (idx + 1) values

def memberVerdicts (children : Object) : List (String × Value) → List Verdict
  | [] => []
  | (key, v) :: members =>
      (check (valueAt key children) fun metadata => parameterVerdict key metadata v) ::
      memberVerdicts children members

end

def sectionVerdict (name : String) (dataNode metadataNode : Object) : Verdict :=
  check (objectAt name dataNode) fun data =>
  check (objectAt name metadataNode) fun node =>
  check (objectAt "children" node) fun metadata =>
    .all (memberVerdicts metadata data)

/-- The verdict of a document. -/
def documentVerdict (jsonObject : Object) : Verdict :=
  check (confirm (jsonObject ≠ [])) fun _ =>
  check (objectAt "data" jsonObject) fun dataNode =>
  check (objectAt "metadata" jsonObject) fun metadataNode =>
    (sectionVerdict "prolog" dataNode metadataNode).andThen
      (sectionVerdict "main" dataNode metadataNode)

/-! ## Whole exports -/

/-- The parameter of a member has its name, with a protection behind it, or is an include. -/
def Named (key : String) (fclKey : FclKey) : Prop :=
  fclKey.key = key ∨ (∃ protection, fclKey.key = key ++ " " ++ protection) ∨
    (isIncludeKey key = true ∧ fclKey.key = "#include")

mutual

/-- Every sequence and table has one element or parameter for each of the data, in order. -/
def Value.ExportedAs : Value → FclValue → Prop
  | .array values, .sequence exported _ => valuesExportedAs values exported
  | .object members, .table atoms _ => membersExportedAs members atoms
  | .array _, _ => False
  | .object _, _ => False
  | _, _ => True

def valuesExportedAs : List Value → List FclValue → Prop
  | [], [] => True
  | v :: values, w :: exported => v.ExportedAs w ∧ valuesExportedAs values exported
  | _, _ => False

def membersExportedAs : List (String × Value) → List Atom → Prop
  | [], [] => True
  | (key, v) :: members, (fclKey, w) :: atoms =>
      Named key fclKey ∧ v.ExportedAs w ∧ membersExportedAs members atoms
  | _, _ => False

end

/-- What a verdict says about a conversion. -/
def MeetsVerdict {α : Type} (complete : α → Prop) (result : Except Failure α) : Verdict → Prop
  | .whole => ∃ a, result = .ok a ∧ complete a
  | .cut => ∃ a, result = .ok a ∧ ¬ complete a
  | .missing => ∃ key, result = .error (.outOfRange key)
  | .broken => ∃ failure, result = .error failure ∧ ∀ key, failure ≠ .outOfRange key

/-! ## The rules of verdicts -/

section

variable {α β γ : Type} {result : Except Failure α} {complete : α → Prop}

theorem meets_error (complete : α → Prop) (failure : Failure) :
    MeetsVerdict complete (.error failure) failure.verdict := by
  cases failure with
  | outOfRange key => exact ⟨key, rfl⟩
  | _ => exact ⟨_, rfl, fun key h => by cases h⟩

theorem meets_check
    {f : α → Except Failure β} {next : α → Verdict} {complete : β → Prop}
    (h : ∀ a, result = .ok a → MeetsVerdict complete (f a) (next a)) :
    MeetsVerdict complete (result >>= f) (check result next) := by
  cases result with
  | ok a => exact h a rfl
  | error failure => exact meets_error complete failure

/-- A step whose result has no parts that could be cut. -/
theorem meets_whole (h : ∀ a, result = .ok a → complete a) :
    MeetsVerdict complete result (check result fun _ => .whole) := by
  cases result with
  | ok a => exact ⟨a, rfl, h a rfl⟩
  | error failure => exact meets_error complete failure

/-- Two parts, each with its own verdict. -/
theorem meets_andThen
    {other : Except Failure β} {v w : Verdict} {join : α → β → γ} {first : α → Prop}
    {second : β → Prop} {both : γ → Prop} (hfirst : MeetsVerdict first result v)
    (hsecond : MeetsVerdict second other w) (hboth : ∀ a b, both (join a b) ↔ first a ∧ second b) :
    MeetsVerdict both (result >>= fun a => join a <$> other) (v.andThen w) := by
  cases v with
  | whole =>
      obtain ⟨a, rfl, ha⟩ := hfirst
      cases w with
      | whole =>
          obtain ⟨b, rfl, hb⟩ := hsecond
          exact ⟨join a b, rfl, (hboth a b).2 ⟨ha, hb⟩⟩
      | cut =>
          obtain ⟨b, rfl, hb⟩ := hsecond
          exact ⟨join a b, rfl, fun h => hb ((hboth a b).1 h).2⟩
      | missing =>
          obtain ⟨key, rfl⟩ := hsecond
          exact ⟨key, rfl⟩
      | broken =>
          obtain ⟨failure, rfl, hfailure⟩ := hsecond
          exact ⟨failure, rfl, hfailure⟩
  | cut =>
      obtain ⟨a, rfl, ha⟩ := hfirst
      cases w with
      | whole =>
          obtain ⟨b, rfl, hb⟩ := hsecond
          exact ⟨join a b, rfl, fun h => ha ((hboth a b).1 h).1⟩
      | cut =>
          obtain ⟨b, rfl, hb⟩ := hsecond
          exact ⟨join a b, rfl, fun h => ha ((hboth a b).1 h).1⟩
      | missing =>
          obtain ⟨key, rfl⟩ := hsecond
          exact ⟨key, rfl⟩
      | broken =>
          obtain ⟨failure, rfl, hfailure⟩ := hsecond
          exact ⟨failure, rfl, hfailure⟩
  | missing =>
      obtain ⟨key, rfl⟩ := hfirst
      exact ⟨key, rfl⟩
  | broken =>
      obtain ⟨failure, rfl, hfailure⟩ := hfirst
      exact ⟨failure, rfl, hfailure⟩

/-- An equivalent property, or one result for another. -/
theorem MeetsVerdict.congr {v : Verdict} {other : α → Prop} (h : MeetsVerdict complete result v)
    (hother : ∀ a, other a ↔ complete a) : MeetsVerdict other result v := by
  cases v with
  | whole =>
      obtain ⟨a, ha, hcomplete⟩ := h
      exact ⟨a, ha, (hother a).2 hcomplete⟩
  | cut =>
      obtain ⟨a, ha, hcomplete⟩ := h
      exact ⟨a, ha, fun h => hcomplete ((hother a).1 h)⟩
  | missing => exact h
  | broken => exact h

theorem MeetsVerdict.map {v : Verdict} {f : α → β} {other : β → Prop} (h : MeetsVerdict complete result v)
    (hother : ∀ a, other (f a) ↔ complete a) : MeetsVerdict other (f <$> result) v := by
  cases v with
  | whole =>
      obtain ⟨a, rfl, hcomplete⟩ := h
      exact ⟨f a, rfl, (hother a).2 hcomplete⟩
  | cut =>
      obtain ⟨a, rfl, hcomplete⟩ := h
      exact ⟨f a, rfl, fun h => hcomplete ((hother a).1 h)⟩
  | missing =>
      obtain ⟨key, rfl⟩ := h
      exact ⟨key, rfl⟩
  | broken =>
      obtain ⟨failure, rfl, hfailure⟩ := h
      exact ⟨failure, rfl, hfailure⟩

theorem Verdict.andThen_whole (v : Verdict) : v.andThen .whole = v := by
  cases v <;> rfl

/-- Nothing is left where the next step fails. -/
theorem meets_bind_error {v : Verdict} (h : MeetsVerdict complete result v) (failure : Failure)
    (other : β → Prop) :
    MeetsVerdict other (result >>= fun _ => .error failure) (v.andThen failure.verdict) := by
  cases v with
  | whole =>
      obtain ⟨a, rfl, -⟩ := h
      exact meets_error other failure
  | cut =>
      obtain ⟨a, rfl, -⟩ := h
      cases failure with
      | outOfRange key => exact ⟨key, rfl⟩
      | _ => exact ⟨_, rfl, fun key h => by cases h⟩
  | missing =>
      obtain ⟨key, rfl⟩ := h
      exact ⟨key, rfl⟩
  | broken =>
      obtain ⟨cause, rfl, hcause⟩ := h
      exact ⟨cause, rfl, hcause⟩

theorem fillWith_failure {failure : Failure} (hfailure : ∀ key, failure ≠ .outOfRange key)
    (rest : List (Except Failure α)) : fillWith (.error failure :: rest) = .error failure := by
  cases failure with
  | outOfRange key => exact absurd rfl (hfailure key)
  | _ => rfl

/-- One item more is filled in. -/
theorem meets_filled_cons
    {results : List (Except Failure α)} {v : Verdict} {verdicts : List Verdict} {first : α → Prop}
    {others all : List α → Prop} (hfirst : MeetsVerdict first result v)
    (hothers : MeetsVerdict others (fillWith results) (.filled verdicts)) (hnil : ¬ all [])
    (hall : ∀ a rest, all (a :: rest) ↔ first a ∧ others rest) :
    MeetsVerdict all (fillWith (result :: results)) (.filled (v :: verdicts)) := by
  cases v with
  | missing =>
      obtain ⟨key, rfl⟩ := hfirst
      exact ⟨[], rfl, hnil⟩
  | whole =>
      obtain ⟨a, rfl, ha⟩ := hfirst
      exact meets_andThen (v := .whole) ⟨a, rfl, ha⟩ hothers hall
  | cut =>
      obtain ⟨a, rfl, ha⟩ := hfirst
      exact meets_andThen (v := .cut) ⟨a, rfl, ha⟩ hothers hall
  | broken =>
      obtain ⟨failure, rfl, hfailure⟩ := hfirst
      exact ⟨failure, fillWith_failure hfailure results, hfailure⟩

theorem meets_all_cons
    {results : List (Except Failure α)} {v : Verdict} {verdicts : List Verdict} {first : α → Prop}
    {others all : List α → Prop} (hfirst : MeetsVerdict first result v)
    (hothers : MeetsVerdict others (fillAll results) (.all verdicts))
    (hall : ∀ a rest, all (a :: rest) ↔ first a ∧ others rest) :
    MeetsVerdict all (fillAll (result :: results)) (.all (v :: verdicts)) :=
  meets_andThen hfirst hothers hall

end

/-! ## Parameters -/

theorem exportedAs_annotated (data : Value) ( annotation : Option String) (value : FclValue) :
    data.ExportedAs (value.annotated annotation) ↔ data.ExportedAs value := by
  cases data <;> cases value <;> rfl

theorem atomName_eq_ok {key name : String} {metadataObject : Object}
    (h : atomName key metadataObject = .ok name) :
    name = key ∨ ∃ protection, name = key ++ " " ++ protection := by
  unfold atomName at h
  split at h
  · rw [bind_eq_ok] at h
    obtain ⟨protection, -, h⟩ := h
    cases h
    split
    · exact Or.inr ⟨protection, rfl⟩
    · exact Or.inl rfl
  · cases h
    exact Or.inl rfl

theorem atomName_verdict (key : String) (metadataObject : Object) :
    (check (atomName key metadataObject) fun _ => .whole) = protectionVerdict metadataObject := by
  unfold atomName protectionVerdict
  split
  · cases stringAt "protection" metadataObject <;> rfl
  · rfl

/-- The name and the annotation of a parameter do not depend on its value. -/
theorem finishAtom_cases (key : String) (metadataObject : Object) (annotated : Bool) :
    (∃ failure, finishVerdict metadataObject annotated = failure.verdict ∧
      ∀ value, finishAtom key metadataObject annotated value = .error failure) ∨
      finishVerdict metadataObject annotated = .whole ∧
        ∃ fclKey annotation, Named key fclKey ∧ ∀ value,
          finishAtom key metadataObject annotated value =
            .ok (fclKey, if annotated then value.annotated annotation else value) := by
  unfold finishVerdict
  rw [← atomName_verdict key]
  cases hcomment : stringAt "comment" metadataObject with
  | error failure =>
      refine Or.inl ⟨failure, rfl, fun value => ?_⟩
      rw [finishAtom, hcomment]
      rfl
  | ok comment =>
      cases hname : atomName key metadataObject with
      | error failure =>
          refine Or.inl ⟨failure, by cases failure <;> rfl, fun value => ?_⟩
          rw [finishAtom, hcomment, hname]
          rfl
      | ok name =>
          have hnamed : Named key ⟨name, some (keyComment (fromJsonString comment))⟩ :=
            (atomName_eq_ok hname).imp_right Or.inl
          cases annotated with
          | false =>
              refine Or.inr ⟨rfl, _, none, hnamed, fun value => ?_⟩
              rw [finishAtom, hcomment, hname]
              rfl
          | true =>
              cases hannotation : stringAt "annotation" metadataObject with
              | error failure =>
                  refine Or.inl ⟨failure, rfl, fun value => ?_⟩
                  simp only [finishAtom, hcomment, hname, hannotation, if_true]
                  rfl
              | ok text =>
                  refine Or.inr ⟨rfl, _, some (fromJsonString text), hnamed, fun value => ?_⟩
                  simp only [finishAtom, hcomment, hname, hannotation, if_true]
                  rfl

/-- A parameter of some data. -/
def IsParameter (key : String) (data : Value) (atom : Atom) : Prop :=
  Named key atom.1 ∧ data.ExportedAs atom.2

/-- A value that was filled in gets its name. -/
theorem meets_finish
    {α : Type} {result : Except Failure α} {v : Verdict} {complete : α → Prop} {data : Value}
    {wrap : α → FclValue} (h : MeetsVerdict complete result v)
    (hwrap : ∀ a, data.ExportedAs (wrap a) ↔ complete a)
    (key : String) (metadataObject : Object) (annotated : Bool) :
    MeetsVerdict (IsParameter key data)
      (result >>= fun a => finishAtom key metadataObject annotated (wrap a))
      (v.andThen (finishVerdict metadataObject annotated)) := by
  rcases finishAtom_cases key metadataObject annotated with
    ⟨failure, hverdict, hfinish⟩ | ⟨hverdict, fclKey, annotation, hnamed, hfinish⟩
  · simp only [hfinish, hverdict]
    exact meets_bind_error h failure _
  · simp only [hfinish, hverdict, Verdict.andThen_whole]
    have hmap := h.map (f := fun a => (fclKey, if annotated then (wrap a).annotated annotation
      else wrap a)) fun a => show IsParameter key data _ ↔ complete a by
        rw [IsParameter, and_iff_right hnamed, ← hwrap]
        cases annotated with
        | true => exact exportedAs_annotated data annotation (wrap a)
        | false => exact Iff.rfl
    rw [← bind_pure_comp] at hmap
    exact hmap

/-! ## The conversion meets its verdict -/

/-- A container is filled from the children of its metadata. -/
theorem meets_container
    {α : Type} {isEmpty : Bool} {children : Except Failure Object}
    {items : Object → List (Except Failure α)} {verdicts : Object → List Verdict}
    {complete : List α → Prop} (hempty : complete [] ↔ isEmpty = true)
    (hitems : ∀ object, MeetsVerdict complete (fillWith (items object)) (.filled (verdicts object))) :
    MeetsVerdict complete
      (fillWith (match children with
        | .ok children => items children
        | .error failure => [.error failure]))
      (containerVerdict isEmpty children verdicts) := by
  cases children with
  | ok object => exact hitems object
  | error failure =>
      cases failure with
      | outOfRange key =>
          cases isEmpty with
          | true => exact ⟨[], rfl, hempty.2 rfl⟩
          | false => exact ⟨[], rfl, fun h => absurd (hempty.1 h) (by decide)⟩
      | _ => cases isEmpty <;> exact ⟨_, rfl, fun key h => by cases h⟩

theorem includeAtom_verdict (data : Value) :
    (check (includeAtom data) fun _ => .whole) = if isString data then .whole else .broken := by
  cases data <;> rfl

theorem scalarAtom_verdict (tag : ScalarTag) (typeName : String) (data : Value) (next : Verdict) :
    (check (scalarAtom tag typeName data) fun _ => next) =
      if scalarFits tag data then next else .broken := by
  cases data <;> cases tag <;> rfl

theorem meets_atomFrom
    {key : String} {metadata data : Value} {isEmpty : Bool}
    {elements : Object → List (Except Failure FclValue)}
    {members : Object → List (Except Failure Atom)}
    {elementVerdicts memberVerdicts : Object → List Verdict}
    (hscalar : ∀ tag typeName value, scalarAtom tag typeName data = .ok value →
      data.ExportedAs value)
    (hinclude : ∀ atom, includeAtom data = .ok atom → data.ExportedAs atom.2)
    (helements : ∀ values, data = .array values → ∀ children,
      MeetsVerdict (fun pushed => data.ExportedAs (.sequence pushed none))
        (fillWith (match children with
          | .ok children => elements children
          | .error failure => [.error failure]))
        (containerVerdict isEmpty children elementVerdicts))
    (hmembers : ∀ object, data = .object object → ∀ children,
      MeetsVerdict (fun pushed => data.ExportedAs (.table pushed none))
        (fillWith (match children with
          | .ok children => members children
          | .error failure => [.error failure]))
        (containerVerdict isEmpty children memberVerdicts)) :
    MeetsVerdict (IsParameter key data) (atomFrom key metadata data elements members)
      (atomVerdict key metadata data isEmpty elementVerdicts memberVerdicts) := by
  unfold atomFrom atomVerdict
  refine meets_check fun metadataObject _ => meets_check fun metadataType _ => ?_
  dsimp only
  split
  · rename_i hkey
    rw [← includeAtom_verdict]
    apply meets_whole
    intro atom hatom
    refine ⟨Or.inr (Or.inr ⟨hkey, ?_⟩), hinclude atom hatom⟩
    unfold includeAtom at hatom
    rw [bind_eq_ok] at hatom
    obtain ⟨text, -, hatom⟩ := hatom
    cases hatom
    rfl
  · refine meets_check fun type _ => ?_
    cases type with
    | scalar tag =>
        dsimp only
        rw [← scalarAtom_verdict]
        refine meets_check fun value hvalue => ?_
        have hwhole : MeetsVerdict data.ExportedAs (.ok value) .whole :=
          ⟨value, rfl, hscalar _ _ _ hvalue⟩
        exact meets_finish hwhole (fun _ => Iff.rfl) key metadataObject _
    | sequence =>
        refine meets_check fun values hvalues => ?_
        have hdata : data = .array values := by
          cases data <;> cases hvalues
          rfl
        exact meets_finish (helements values hdata _) (fun _ => Iff.rfl) key metadataObject true
    | table =>
        refine meets_check fun object hobject => ?_
        have hdata : data = .object object := by
          cases data <;> cases hobject
          rfl
        exact meets_finish (hmembers object hdata _) (fun _ => Iff.rfl) key metadataObject false

theorem exportedAs_of_scalar {data : Value} (harray : ∀ values, data ≠ .array values)
    (hobject : ∀ members, data ≠ .object members) (value : FclValue) : data.ExportedAs value := by
  cases data with
  | array values => exact absurd rfl (harray values)
  | object members => exact absurd rfl (hobject members)
  | string | decimal | integer | boolean => cases value <;> trivial

/-- Only a string is exported as an include. -/
theorem includeAtom_eq_ok {data : Value} {atom : Atom} (h : includeAtom data = .ok atom) :
    ∃ text, data = .string text := by
  unfold includeAtom at h
  rw [bind_eq_ok] at h
  obtain ⟨text, htext, -⟩ := h
  cases data <;> cases htext
  exact ⟨text, rfl⟩

/-- Only scalars are exported as scalars. -/
theorem scalarAtom_eq_ok {tag : ScalarTag} {typeName : String} {data : Value} {value : FclValue}
    (h : scalarAtom tag typeName data = .ok value) :
    (∀ values, data ≠ .array values) ∧ ∀ members, data ≠ .object members := by
  cases data with
  | array values => cases tag <;> cases h
  | object members => cases tag <;> cases h
  | string | decimal | integer | boolean => simp

theorem meets_scalar
    {key : String} {metadata data : Value} (harray : ∀ values, data ≠ .array values)
    (hobject : ∀ members, data ≠ .object members) :
    MeetsVerdict (IsParameter key data) (atomFrom key metadata data (fun _ => []) fun _ => [])
      (atomVerdict key metadata data true (fun _ => []) fun _ => []) := by
  apply meets_atomFrom
  · exact fun _ _ value _ => exportedAs_of_scalar harray hobject value
  · exact fun atom _ => exportedAs_of_scalar harray hobject atom.2
  · exact fun values h => absurd h (harray values)
  · exact fun members h => absurd h (hobject members)

theorem finishAtom_named {key : String} {metadataObject : Object} {annotated : Bool}
    {value : FclValue} {atom : Atom} (h : finishAtom key metadataObject annotated value = .ok atom) :
    Named key atom.1 := by
  rcases finishAtom_cases key metadataObject annotated with
    ⟨failure, -, hfinish⟩ | ⟨-, fclKey, annotation, hnamed, hfinish⟩
  · rw [hfinish] at h
    cases h
  · rw [hfinish] at h
    cases h
    exact hnamed

theorem atomFrom_named
    {key : String} {metadata data : Value} {elements : Object → List (Except Failure FclValue)}
    {members : Object → List (Except Failure Atom)} {atom : Atom}
    (h : atomFrom key metadata data elements members = .ok atom) : Named key atom.1 := by
  unfold atomFrom at h
  rw [bind_eq_ok] at h
  obtain ⟨metadataObject, -, h⟩ := h
  rw [bind_eq_ok] at h
  obtain ⟨metadataType, -, h⟩ := h
  dsimp only at h
  split at h
  · rename_i hkey
    obtain ⟨text, rfl⟩ := includeAtom_eq_ok h
    cases h
    exact Or.inr (Or.inr ⟨hkey, rfl⟩)
  · rw [bind_eq_ok] at h
    obtain ⟨type, -, h⟩ := h
    cases type with
    | scalar tag =>
        rw [bind_eq_ok] at h
        obtain ⟨value, -, h⟩ := h
        exact finishAtom_named h
    | sequence | table =>
        rw [bind_eq_ok] at h
        obtain ⟨_, -, h⟩ := h
        rw [bind_eq_ok] at h
        obtain ⟨pushed, -, h⟩ := h
        exact finishAtom_named h

theorem json2fcldbAtom_named {key : String} {metadata v : Value} {atom : Atom}
    (h : json2fcldbAtom key metadata v = .ok atom) : Named key atom.1 := by
  cases v <;> exact atomFrom_named h

/-- An element of a sequence. -/
theorem meets_element
    {v metadata : Value} {key : String} {verdict : Verdict}
    (h : MeetsVerdict (IsParameter key v) (json2fcldbAtom key metadata v) verdict) :
    MeetsVerdict v.ExportedAs (json2fcldbValue v metadata (json2fcldbAtom key metadata v))
      (valueVerdict v metadata verdict) := by
  have hvalue : MeetsVerdict v.ExportedAs ((json2fcldbAtom key metadata v).map Prod.snd) verdict := by
    cases verdict with
    | whole =>
        obtain ⟨atom, hatom, hparameter⟩ := h
        exact ⟨atom.2, by rw [hatom]; rfl, hparameter.2⟩
    | cut =>
        obtain ⟨atom, hatom, hparameter⟩ := h
        exact ⟨atom.2, by rw [hatom]; rfl,
          fun hexported => hparameter ⟨json2fcldbAtom_named hatom, hexported⟩⟩
    | missing =>
        obtain ⟨name, hatom⟩ := h
        exact ⟨name, by rw [hatom]; rfl⟩
    | broken =>
        obtain ⟨failure, hatom, hfailure⟩ := h
        exact ⟨failure, by rw [hatom]; rfl, hfailure⟩
  cases v with
  | object members => exact hvalue
  | array values => exact hvalue
  | boolean flag => exact ⟨_, rfl, trivial⟩
  | integer number => exact ⟨_, rfl, trivial⟩
  | decimal text => exact ⟨_, rfl, trivial⟩
  | string text =>
      exact meets_check fun _ _ => meets_check fun _ _ => ⟨_, rfl, trivial⟩

mutual

theorem meets_parameter (key : String) (metadata v : Value) :
    MeetsVerdict (IsParameter key v) (json2fcldbAtom key metadata v)
      (parameterVerdict key metadata v) := by
  cases v with
  | array values =>
      apply meets_atomFrom
      · exact fun _ _ _ h => absurd rfl ((scalarAtom_eq_ok h).1 values)
      · intro atom h
        obtain ⟨text, htext⟩ := includeAtom_eq_ok h
        cases htext
      · intro _ _ children
        apply meets_container
        · cases values <;> simp [Value.ExportedAs, valuesExportedAs]
        · exact fun object => meets_elements object 0 values
      · intro _ h
        cases h
  | object members =>
      apply meets_atomFrom
      · exact fun _ _ _ h => absurd rfl ((scalarAtom_eq_ok h).2 members)
      · intro atom h
        obtain ⟨text, htext⟩ := includeAtom_eq_ok h
        cases htext
      · intro _ h
        cases h
      · intro _ _ children
        apply meets_container
        · cases members <;> simp [Value.ExportedAs, membersExportedAs]
        · exact fun object => meets_members object members
  | string text => exact meets_scalar (by simp) (by simp)
  | decimal text => exact meets_scalar (by simp) (by simp)
  | integer number => exact meets_scalar (by simp) (by simp)
  | boolean flag => exact meets_scalar (by simp) (by simp)

theorem meets_elements (children : Object) (idx : ℕ) (values : List Value) :
    MeetsVerdict (fun pushed => valuesExportedAs values pushed)
      (fillWith (elementResults children idx values))
      (.filled (elementVerdicts children idx values)) := by
  cases values with
  | nil => exact ⟨[], rfl, trivial⟩
  | cons v values =>
      have hfirst : MeetsVerdict v.ExportedAs
          (valueAt (toString idx) children >>= fun metadata =>
            json2fcldbValue v metadata (json2fcldbAtom (toString idx) metadata v))
          (check (valueAt (toString idx) children) fun metadata =>
            valueVerdict v metadata (parameterVerdict (toString idx) metadata v)) :=
        meets_check fun metadata _ => meets_element (meets_parameter (toString idx) metadata v)
      exact meets_filled_cons hfirst (meets_elements children (idx + 1) values) id
        fun _ _ => Iff.rfl

theorem meets_members (children : Object) (members : List (String × Value)) :
    MeetsVerdict (fun atoms => membersExportedAs members atoms)
      (fillWith (memberResults children members))
      (.filled (memberVerdicts children members)) := by
  cases members with
  | nil => exact ⟨[], rfl, trivial⟩
  | cons m members =>
      obtain ⟨key, v⟩ := m
      have hfirst : MeetsVerdict (IsParameter key v)
          (valueAt key children >>= fun metadata => json2fcldbAtom key metadata v)
          (check (valueAt key children) fun metadata => parameterVerdict key metadata v) :=
        meets_check fun metadata _ => meets_parameter key metadata v
      exact meets_filled_cons hfirst (meets_members children members) id fun _ _ => and_assoc.symm

end

theorem meets_section_members (children : Object) (members : List (String × Value)) :
    MeetsVerdict (fun atoms => membersExportedAs members atoms)
      (fillAll (memberResults children members)) (.all (memberVerdicts children members)) := by
  induction members with
  | nil => exact ⟨[], rfl, trivial⟩
  | cons m members ih =>
      obtain ⟨key, v⟩ := m
      have hfirst : MeetsVerdict (IsParameter key v)
          (valueAt key children >>= fun metadata => json2fcldbAtom key metadata v)
          (check (valueAt key children) fun metadata => parameterVerdict key metadata v) :=
        meets_check fun metadata _ => meets_parameter key metadata v
      exact meets_all_cons hfirst ih fun _ _ => and_assoc.symm

/-! ## Whole documents -/

theorem meets_section {name : String} {dataNode metadataNode data : Object}
    (hdata : objectAt name dataNode = .ok data) :
    MeetsVerdict (membersExportedAs data) (writeSection name dataNode metadataNode)
      (sectionVerdict name dataNode metadataNode) := by
  refine meets_check fun other hother => ?_
  rw [hdata, Except.ok.injEq] at hother
  subst hother
  exact meets_check fun _ _ => meets_check fun metadata _ => meets_section_members metadata data

/-- The sections of a document, exported from its data. -/
def SectionsWhole (dataNode : Object) (tables : FhiclTables) : Prop :=
  (∃ data, objectAt "prolog" dataNode = .ok data ∧ membersExportedAs data tables.prolog) ∧
    ∃ data, objectAt "main" dataNode = .ok data ∧ membersExportedAs data tables.main

theorem meets_section_whole (name : String) (dataNode metadataNode : Object) :
    MeetsVerdict (fun atoms => ∃ data, objectAt name dataNode = .ok data ∧ membersExportedAs data atoms)
      (writeSection name dataNode metadataNode) (sectionVerdict name dataNode metadataNode) := by
  cases hdata : objectAt name dataNode with
  | error failure =>
      rw [writeSection, sectionVerdict, hdata]
      exact meets_error _ failure
  | ok data =>
      refine (meets_section hdata).congr fun atoms => ?_
      simp

/-- The data of a document, exported into both tables. -/
def DocumentWhole (jsonObject : Object) (tables : FhiclTables) : Prop :=
  ∃ dataNode, objectAt "data" jsonObject = .ok dataNode ∧ SectionsWhole dataNode tables

theorem meets_document (jsonObject : Object) :
    MeetsVerdict (DocumentWhole jsonObject) (writeData jsonObject) (documentVerdict jsonObject) := by
  refine meets_check fun _ _ => meets_check fun dataNode hdata => meets_check fun metadataNode _ => ?_
  have hsections : MeetsVerdict (SectionsWhole dataNode)
      (writeSection "prolog" dataNode metadataNode >>= fun prolog =>
        FhiclTables.mk prolog <$> writeSection "main" dataNode metadataNode)
      ((sectionVerdict "prolog" dataNode metadataNode).andThen
        (sectionVerdict "main" dataNode metadataNode)) :=
    meets_andThen (meets_section_whole "prolog" dataNode metadataNode)
      (meets_section_whole "main" dataNode metadataNode) fun _ _ => Iff.rfl
  simp only [← bind_pure_comp] at hsections
  refine hsections.congr fun tables => ?_
  rw [DocumentWhole, hdata]
  simp

/-- The export of a document fails, or has one parameter or element for each of the data. -/
def FailsOrIsWhole (jsonObject : Object) : Prop :=
  (∃ failure, writeData jsonObject = .error failure) ∨
    ∃ tables, writeData jsonObject = .ok tables ∧ DocumentWhole jsonObject tables

/-- A table that is cut is one that was exported. -/
theorem failsOrIsWhole_iff_of_meets {jsonObject : Object} {verdict : Verdict}
    (h : MeetsVerdict (DocumentWhole jsonObject) (writeData jsonObject) verdict) :
    FailsOrIsWhole jsonObject ↔ verdict ≠ .cut := by
  unfold FailsOrIsWhole
  cases verdict with
  | whole =>
      have ⟨tables, htables, hwhole⟩ := h
      have hne : Verdict.whole ≠ .cut := by decide
      exact iff_of_true (Or.inr ⟨tables, htables, hwhole⟩) hne
  | cut =>
      have ⟨tables, htables, hcut⟩ := h
      rw [htables]
      simpa using hcut
  | missing =>
      have ⟨key, hkey⟩ := h
      have hne : Verdict.missing ≠ .cut := by decide
      exact iff_of_true (Or.inl ⟨_, hkey⟩) hne
  | broken =>
      have ⟨failure, hfailure, _⟩ := h
      have hne : Verdict.broken ≠ .cut := by decide
      exact iff_of_true (Or.inl ⟨failure, hfailure⟩) hne

/-- An export is never cut unless the verdict says so. -/
theorem writeData_whole_iff (jsonObject : Object) :
    FailsOrIsWhole jsonObject ↔ documentVerdict jsonObject ≠ .cut :=
  failsOrIsWhole_iff_of_meets (meets_document jsonObject)

/-- The metadata of a number. -/
def numberMetadata : Value :=
  .object [("type", .string "number"), ("comment", .string ""), ("annotation", .string "")]

/-- The table `t` has two members, and metadata for the first. -/
def halfDescribed : Object :=
  [("data", .object [
      ("prolog", .object []),
      ("main", .object [("t", .object [("a", .integer 1), ("b", .integer 2)])])]),
    ("metadata", .object [
      ("prolog", .object (sectionNode "prolog" [])),
      ("main", .object (sectionNode "main" [
        ("t", .object [("type", .string "table"), ("comment", .string ""),
          ("children", .object [("a", numberMetadata)])])]))])]

/-- The second member of the table is dropped without a failure. -/
theorem writeData_cuts : ¬ FailsOrIsWhole halfDescribed := by
  have hmeets := meets_document halfDescribed
  have hverdict : documentVerdict halfDescribed = .cut := by decide +kernel
  rw [hverdict] at hmeets
  rw [failsOrIsWhole_iff_of_meets hmeets]
  simp

end ArtdaqDatabase
