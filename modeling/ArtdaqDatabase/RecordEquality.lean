import ArtdaqDatabase.EditOutcomes
import ArtdaqDatabase.JsonPaths
import ArtdaqDatabase.RecordComparison

/-!
# What the comparison of records sees

Each `operator==` accepts what its view accepts: the whole of a value, a member that is
read as a text or a flag, or the parts of an object.  The search of a document and the
history of the aliases are in no view.
-/

namespace ArtdaqDatabase

open OrderedTable PartialViews

variable {δ : Type} {number : String → Option δ}

/-! ## Views of values -/

abbrev TreeView (number : String → Option δ) := View (SameTree number)

def wholeView (number : String → Option δ) : TreeView number :=
  View.whole

theorem isString_of_sameTree {v w : Value} (h : SameTree number v w) :
    isString v = true → isString w = true := by
  cases h <;> exact id

def isFlag : Value → Bool
  | .boolean _ => true
  | _ => false

theorem isFlag_of_sameTree {v w : Value} (h : SameTree number v w) :
    isFlag v = true → isFlag w = true := by
  cases h <;> exact id

/-- A value that is read as a text. -/
def textView (number : String → Option δ) : TreeView number :=
  View.guarded (fun v => isString v = true) fun _ _ => isString_of_sameTree

def flagView (number : String → Option δ) : TreeView number :=
  View.guarded (fun v => isFlag v = true) fun _ _ => isFlag_of_sameTree

def elements : Value → Option (List Value)
  | .array values => some values
  | _ => none

def members : Value → Option Object
  | .object o => some o
  | _ => none

theorem elements_eq_some_iff {v : Value} {values : List Value} :
    elements v = some values ↔ v = .array values := by
  cases v <;> simp [elements]

theorem members_eq_some_iff {v : Value} {o : Object} : members v = some o ↔ v = .object o := by
  cases v <;> simp [members]

theorem rel_elements {v w : Value} (h : SameTree number v w) :
    Option.Rel (List.Forall₂ (SameTree number)) (elements v) (elements w) := by
  cases h with
  | array h => exact Option.Rel.some h
  | _ => exact Option.Rel.none

theorem rel_members {v w : Value} (h : SameTree number v w) :
    Option.Rel (SameTable (SameTree number)) (members v) (members w) := by
  cases h with
  | object h => exact Option.Rel.some (sameTree_object_iff.1 (SameTree.object h))
  | _ => exact Option.Rel.none

/-- The elements of an array. -/
def listView (V : TreeView number) : TreeView number :=
  View.within V.list elements (fun _ _ => rel_elements) fun v w xs ys hv hw h => by
    rw [elements_eq_some_iff] at hv hw
    rw [hv, hw]
    exact sameTree_array_iff.2 h

/-- Some members of an object. -/
def objectView (parts : List (Part String (SameTree number))) : TreeView number :=
  View.within (View.table parts (.boolean false) (SameTree.boolean false)) members
    (fun _ _ => rel_members) fun v w o p hv hw h => by
      rw [members_eq_some_iff] at hv hw
      rw [hv, hw]
      exact sameTree_object_iff.2 h

theorem listView_accepts_iff {V : TreeView number} {v w : Value} :
    (listView V).Accepts v w ↔
      ∃ xs ys, v = .array xs ∧ w = .array ys ∧ List.Forall₂ V.Accepts xs ys := by
  rw [listView, View.within_accepts_iff]
  simp only [elements_eq_some_iff, View.list_accepts_iff]

/-- The part is there on both sides, and accepted. -/
def PartAccepts (part : Part String (SameTree number)) (o p : Object) : Prop :=
  ∃ v w, lookup part.1 o = some v ∧ lookup part.1 p = some w ∧ part.2.Accepts v w

theorem objectView_accepts_iff
    {parts : List (Part String (SameTree number))} {v w : Value} :
    (objectView parts).Accepts v w ↔
      ∃ o p, v = .object o ∧ w = .object p ∧ ∀ part ∈ parts, PartAccepts part o p := by
  rw [objectView, View.within_accepts_iff]
  simp only [members_eq_some_iff]
  have htable : ∀ o p : Object,
      (View.table parts (.boolean false) (SameTree.boolean false)).Accepts o p ↔
        ∀ part ∈ parts, PartAccepts part o p :=
    fun o p => View.fields_accepts_iff lookup
  simp only [htable]

/-! ## Comparisons and views -/

/-- The comparison succeeds on what the view accepts. -/
def Decides (compare : Comparison) (V : TreeView number) : Prop :=
  ∀ v w, compare v w = .ok none ↔ V.Accepts v w

theorem join_eq_empty_iff {texts : List String} :
    String.join texts = "" ↔ ∀ text ∈ texts, text = "" := by
  induction texts with
  | nil => simp
  | cons text texts ih => rw [String.join_cons, String.append_eq_empty_iff, ih, List.forall_mem_cons]

theorem conclude_eq_none_iff
    {heading : String} {hheading : heading ≠ ""} {texts : List String}
    {walk : Except Failure (Option String)} {closing : Except Failure String} :
    conclude heading hheading texts walk closing = .ok none ↔
      (∀ text ∈ texts, text = "") ∧ walk = .ok none := by
  have hclose : ∀ difference : String,
      (closing >>= fun closing =>
        pure (some (disagree heading hheading (difference ++ closing)))) ≠
        (.ok none : Except Failure (Option Disagreement)) := by
    intro difference
    cases closing <;> simp [bind, Except.bind, pure, Except.pure]
  rw [← join_eq_empty_iff, conclude]
  by_cases hwritten : String.join texts = ""
  · rw [if_pos hwritten, and_iff_right hwritten]
    cases walk with
    | error e => simp [bind, Except.bind]
    | ok difference =>
        cases difference with
        | none => simp [bind, Except.bind, pure, Except.pure]
        | some difference => simpa [bind, Except.bind] using hclose difference
  · rw [if_neg hwritten]
    simpa [bind, Except.bind, hwritten] using hclose (String.join texts)

theorem verdictText_eq_empty_iff {heading : String} {result : Option Disagreement} :
    verdictText heading result = "" ↔ result = none := by
  cases result with
  | none => simp [verdictText]
  | some difference => simp [verdictText, difference.text_ne]

theorem selfOther_ne (first second : String) : selfOther first second ≠ "" := by
  simp [selfOther, String.append_eq_empty_iff]

theorem sizeDifference_eq_empty_iff {heading : String} {entries others : List Value} :
    sizeDifference heading entries others = "" ↔ entries.length = others.length := by
  unfold sizeDifference
  split
  · simp_all
  · simp_all [selfOther_ne]

theorem readDifference_eq_empty_iff
    {α : Type} [DecidableEq α] {read : Object → Except Failure α} {heading : String}
    {toText : α → String} {self other : Object} :
    readDifference read heading toText self other = .ok "" ↔
      ∃ a, read self = .ok a ∧ read other = .ok a := by
  simp only [readDifference, bind_eq_ok, pure, Except.pure, Except.ok.injEq]
  constructor
  · rintro ⟨first, hfirst, second, hsecond, htext⟩
    by_cases hsame : first = second
    · exact ⟨first, hfirst, hsame ▸ hsecond⟩
    · rw [if_neg hsame, String.append_eq_empty_iff] at htext
      exact absurd htext.2 (selfOther_ne _ _)
  · rintro ⟨a, hself, hother⟩
    exact ⟨a, hself, a, hother, if_pos rfl⟩

theorem whenDisagreeing_eq_empty_iff
    {result : Option Disagreement} {text : Except Failure String} (htext : text ≠ .ok "") :
    whenDisagreeing result text = .ok "" ↔ result = none := by
  cases result with
  | none => simp [whenDisagreeing]
  | some difference => simp [whenDisagreeing, htext]

theorem wholeView_accepts_iff {v w : Value} : (wholeView number).Accepts v w ↔ SameTree number v w :=
  and_iff_left trivial

theorem textView_accepts_iff {v w : Value} :
    (textView number).Accepts v w ↔ ∃ s, v = .string s ∧ w = .string s := by
  constructor
  · rintro ⟨hsame, htext⟩
    cases hsame with
    | string s => exact ⟨s, rfl, rfl⟩
    | _ => cases htext
  · rintro ⟨s, rfl, rfl⟩
    exact ⟨SameTree.string s, rfl⟩

theorem flagView_accepts_iff {v w : Value} :
    (flagView number).Accepts v w ↔ ∃ b, v = .boolean b ∧ w = .boolean b := by
  constructor
  · rintro ⟨hsame, hflag⟩
    cases hsame with
    | boolean b => exact ⟨b, rfl, rfl⟩
    | _ => cases hflag
  · rintro ⟨b, rfl, rfl⟩
    exact ⟨SameTree.boolean b, rfl⟩

theorem memberResult_eq_none_iff
    {key : String} {compare : Comparison} {V : TreeView number} (hcompare : Decides compare V)
    {o p : Object} :
    memberResult key compare o p = .ok none ↔ PartAccepts (key, V) o p := by
  simp only [memberResult, bind_eq_ok, valueAt_eq_ok, hcompare _ _, PartAccepts]
  constructor
  · rintro ⟨v, hv, w, hw, haccepts⟩
    exact ⟨v, w, hv, hw, haccepts⟩
  · rintro ⟨v, w, hv, hw, haccepts⟩
    exact ⟨v, hv, w, hw, haccepts⟩

theorem textDifference_eq_empty_iff {key heading : String} {o p : Object} :
    readDifference (stringAt key) heading quoted o p = .ok "" ↔
      PartAccepts (key, textView number) o p := by
  simp only [readDifference_eq_empty_iff, stringAt_eq_ok, PartAccepts, textView_accepts_iff]
  constructor
  · rintro ⟨s, ho, hp⟩
    exact ⟨_, _, ho, hp, s, rfl, rfl⟩
  · rintro ⟨v, w, ho, hp, s, rfl, rfl⟩
    exact ⟨s, ho, hp⟩

theorem flagDifference_eq_empty_iff {key heading : String} {o p : Object} :
    readDifference (boolAt key) heading bool_ o p = .ok "" ↔
      PartAccepts (key, flagView number) o p := by
  simp only [readDifference_eq_empty_iff, boolAt_eq_ok, PartAccepts, flagView_accepts_iff]
  constructor
  · rintro ⟨b, ho, hp⟩
    exact ⟨_, _, ho, hp, b, rfl, rfl⟩
  · rintro ⟨v, w, ho, hp, b, rfl, rfl⟩
    exact ⟨b, ho, hp⟩

theorem elementDifference_eq_none_iff
    {compare : Comparison} {text : Disagreement → Value → Value → Except Failure String}
    {v w : Value} :
    elementDifference compare text v w = .ok none ↔ compare v w = .ok none := by
  unfold elementDifference
  cases compare v w with
  | error e => simp [bind, Except.bind]
  | ok result =>
      cases result with
      | none => simp [bind, Except.bind, pure, Except.pure]
      | some difference =>
          cases htext : text difference v w <;>
            simp [bind, Except.bind, pure, Except.pure, htext]

/-- Lists of one size are compared element by element. -/
theorem elements_eq_none_iff
    {V : TreeView number} {compare : Comparison} (hcompare : Decides compare V)
    {text : Disagreement → Value → Value → Except Failure String} {entries others : List Value}
    (hlength : entries.length = others.length) :
    firstDifference (elementDifference compare text) entries others = .ok none ↔
      List.Forall₂ V.Accepts entries others := by
  have hstep : ∀ v w, elementDifference compare text v w = .ok none ↔ V.Accepts v w :=
    fun v w => elementDifference_eq_none_iff.trans (hcompare v w)
  rw [firstDifference_eq_none_iff hlength]
  constructor
  · exact List.Forall₂.imp fun v w => (hstep v w).1
  · exact List.Forall₂.imp fun v w => (hstep v w).2

theorem objects_eq_none_iff
    {parts : List (Part String (SameTree number))} {v w : Value}
    {compare : Object → Object → Except Failure (Option Disagreement)}
    (hcompare : ∀ o p, compare o p = .ok none ↔ ∀ part ∈ parts, PartAccepts part o p) :
    (do
      let o ← v.getObject
      let p ← w.getObject
      compare o p) = .ok none ↔ (objectView parts).Accepts v w := by
  simp only [bind_eq_ok, getObject_eq_ok, hcompare, objectView_accepts_iff]
  constructor
  · rintro ⟨o, hv, p, hw, h⟩
    exact ⟨o, p, hv, hw, h⟩
  · rintro ⟨o, p, hv, hw, h⟩
    exact ⟨o, hv, p, hw, h⟩

theorem decides_ovlFixedList
    {V : TreeView number} {element : Comparison} (helement : Decides element V) (key : String)
    (elementToString : Value → Except Failure String) :
    Decides (ovlFixedListEquals key element elementToString) (listView V) := by
  intro v w
  simp only [ovlFixedListEquals, bind_eq_ok, getArray_eq_ok, conclude_eq_none_iff,
    List.forall_mem_singleton, sizeDifference_eq_empty_iff, listView_accepts_iff]
  constructor
  · rintro ⟨entries, hv, others, hw, hlength, h⟩
    exact ⟨entries, others, hv, hw, (elements_eq_none_iff helement hlength).1 h⟩
  · rintro ⟨entries, others, hv, hw, h⟩
    have hlength := h.length_eq
    exact ⟨entries, hv, others, hw, hlength, (elements_eq_none_iff helement hlength).2 h⟩

section Decisions

variable [DecidableEq δ]

theorem decides_ovlKeyValue (key : String) (toText : Value → Except Failure String) :
    Decides (ovlKeyValueEquals number key toText) (wholeView number) := by
  intro v w
  rw [wholeView_accepts_iff, ← valuesEqual_iff, ovlKeyValueEquals]
  by_cases hequal : valuesEqual number v w = true
  · simp [hequal, pure, Except.pure]
  · rw [if_neg hequal]
    refine iff_of_false ?_ hequal
    cases toText v with
    | error e => simp [bind, Except.bind]
    | ok first => cases toText w <;> simp [bind, Except.bind, pure, Except.pure]

theorem timestampDifference_eq_empty_iff {key : String} {o p : Object} :
    timestampDifference number key o p = .ok "" ↔
      PartAccepts (key, wholeView number) o p := by
  have htext : (do
      let first ← stringAt key o
      let second ← stringAt key p
      return "\n  Timestamps are different:" ++ selfOther (quoted first) (quoted second)) ≠
      (.ok "" : Except Failure String) := by
    cases stringAt key o with
    | error e => simp [bind, Except.bind]
    | ok first =>
        cases stringAt key p <;>
          simp [bind, Except.bind, pure, Except.pure, String.append_eq_empty_iff]
  rw [← memberResult_eq_none_iff (decides_ovlKeyValue key (ovlTimeStampToString key)),
    timestampDifference, bind_eq_ok]
  simp only [whenDisagreeing_eq_empty_iff htext, exists_eq_right]
  rfl

/-- The entry of a list: its name and the time of its assignment. -/
def entryView (number : String → Option δ) : TreeView number :=
  objectView [("name", textView number), ("assigned", wholeView number)]

theorem decides_ovlKeyValueTimeStamp (hasRemoved : Bool) (key : String) :
    Decides (ovlKeyValueTimeStampEquals number hasRemoved key) (entryView number) := by
  intro v w
  apply objects_eq_none_iff
  intro o p
  have hname := @textDifference_eq_empty_iff _ number "name"
    ("\n  " ++ key ++ "names are different:") o p
  have hassigned : memberResult "assigned" (ovlTimeStampEquals number "assigned") o p =
      .ok none ↔ PartAccepts ("assigned", wholeView number) o p :=
    memberResult_eq_none_iff (decides_ovlKeyValue _ _)
  have hremoved : PartAccepts ("assigned", wholeView number) o p →
      removedResult number hasRemoved o p = .ok none := by
    intro haccepts
    cases hasRemoved with
    | true => exact hassigned.2 haccepts
    | false => rfl
  simp only [bind_eq_ok, conclude_eq_none_iff, List.forall_mem_cons, verdictText_eq_empty_iff]
  constructor
  · rintro ⟨_, hn, _, ha, _, -, ⟨rfl, rfl, -⟩, -⟩
    exact ⟨hname.1 hn, hassigned.1 ha, List.forall_mem_nil _⟩
  · rintro ⟨hn, ha, -⟩
    exact ⟨"", hname.2 hn, none, hassigned.2 ha, none, hremoved ha, ⟨rfl, rfl, rfl, List.forall_mem_nil _⟩, trivial⟩

/-- A section of a text, a comment, or another whole value in a list. -/
theorem decides_wholeList
    (key : String) (toText : Value → Except Failure String)
    (elementToString : Value → Except Failure String) :
    Decides (ovlFixedListEquals key (ovlKeyValueEquals number "value" toText) elementToString)
      (listView (wholeView number)) :=
  decides_ovlFixedList (decides_ovlKeyValue _ _) key elementToString

def originView (number : String → Option δ) : TreeView number :=
  objectView [("format", textView number), ("name", textView number),
    ("source", textView number), ("created", wholeView number),
    ("rawdata", listView (wholeView number))]

theorem decides_ovlOrigin : Decides (ovlOriginEquals number) (originView number) := by
  intro v w
  apply objects_eq_none_iff
  intro o p
  have htext : ∀ key heading, readDifference (stringAt key) heading quoted o p = .ok "" ↔
      PartAccepts (key, textView number) o p := fun _ _ => textDifference_eq_empty_iff
  have hcreated := @timestampDifference_eq_empty_iff _ number _ "created" o p
  have hrawdata : memberResult "rawdata"
      (ovlFixedListEquals "rawdata" (ovlStringKeyValueEquals number "value")
        (ovlKeyValueToString "value")) o p = .ok none ↔
      PartAccepts ("rawdata", listView (wholeView number)) o p :=
    memberResult_eq_none_iff (decides_wholeList _ _ _)
  simp only [bind_eq_ok, conclude_eq_none_iff, List.forall_mem_cons, verdictText_eq_empty_iff]
  constructor
  · rintro ⟨_, hformat, _, hname, _, hsource, _, hc, _, hr, ⟨rfl, rfl, rfl, rfl, rfl, -⟩, -⟩
    exact ⟨(htext _ _).1 hformat, (htext _ _).1 hname, (htext _ _).1 hsource, hcreated.1 hc,
      hrawdata.1 hr, List.forall_mem_nil _⟩
  · rintro ⟨hformat, hname, hsource, hc, hr, -⟩
    exact ⟨"", (htext _ _).2 hformat, "", (htext _ _).2 hname, "", (htext _ _).2 hsource, "",
      hcreated.2 hc, none, hrawdata.2 hr, ⟨rfl, rfl, rfl, rfl, rfl, List.forall_mem_nil _⟩, trivial⟩

def updateView (number : String → Option δ) : TreeView number :=
  objectView [("timestamp", wholeView number), ("event", textView number),
    ("value", entryView number)]

theorem decides_ovlUpdate : Decides (ovlUpdateEquals number) (updateView number) := by
  intro v w
  apply objects_eq_none_iff
  intro o p
  have htimestamp := @timestampDifference_eq_empty_iff _ number _ "timestamp" o p
  have hevent := @textDifference_eq_empty_iff _ number "event"
    "\n  Events are different:" o p
  have hwhat : memberResult "value" (ovlKeyValueTimeStampEquals number false "value") o p =
      .ok none ↔ PartAccepts ("value", entryView number) o p :=
    memberResult_eq_none_iff (decides_ovlKeyValueTimeStamp _ _)
  have htext : (do
      let first ← valueAt "value" o >>= ovlKeyValueTimeStampToString false
      let second ← valueAt "value" p >>= ovlKeyValueTimeStampToString false
      return "\n  Event data are different:" ++ selfOther first second) ≠
      (.ok "" : Except Failure String) := by
    simp only [ne_eq, bind_eq_ok, pure, Except.pure, Except.ok.injEq, String.append_eq_empty_iff]
    rintro ⟨_, -, _, -, -, hself⟩
    exact selfOther_ne _ _ hself
  have hsame := @whenDisagreeing_eq_empty_iff none _ htext
  simp only [bind_eq_ok, conclude_eq_none_iff, List.forall_mem_cons]
  constructor
  · rintro ⟨_, ht, _, he, _, hw, _, hdiffers, ⟨rfl, rfl, rfl, -⟩, -⟩
    rw [whenDisagreeing_eq_empty_iff htext] at hdiffers
    subst hdiffers
    exact ⟨htimestamp.1 ht, hevent.1 he, hwhat.1 hw, List.forall_mem_nil _⟩
  · rintro ⟨ht, he, hw, -⟩
    exact ⟨"", htimestamp.2 ht, "", hevent.2 he, none, hwhat.2 hw, "", hsame.2 rfl,
      ⟨rfl, rfl, rfl, List.forall_mem_nil _⟩, trivial⟩

def bookkeepingView (number : String → Option δ) : TreeView number :=
  objectView [("isdeleted", flagView number), ("isreadonly", flagView number),
    ("created", wholeView number), ("updates", listView (updateView number))]

theorem decides_ovlBookkeeping :
    Decides (ovlBookkeepingEquals number) (bookkeepingView number) := by
  intro v w
  apply objects_eq_none_iff
  intro o p
  have hflag : ∀ key heading, readDifference (boolAt key) heading bool_ o p = .ok "" ↔
      PartAccepts (key, flagView number) o p := fun _ _ => flagDifference_eq_empty_iff
  have hcreated := @timestampDifference_eq_empty_iff _ number _ "created" o p
  simp only [bind_eq_ok, conclude_eq_none_iff, List.forall_mem_cons, arrayAt_eq_ok,
    sizeDifference_eq_empty_iff]
  constructor
  · rintro ⟨_, hdeleted, _, hreadonly, _, hc, updates, hupdates, others, hothers,
      ⟨rfl, rfl, rfl, hlength, -⟩, hwalk⟩
    have helements := (elements_eq_none_iff decides_ovlUpdate hlength).1 hwalk
    exact ⟨(hflag _ _).1 hdeleted, (hflag _ _).1 hreadonly, hcreated.1 hc,
      ⟨_, _, hupdates, hothers, listView_accepts_iff.2 ⟨updates, others, rfl, rfl, helements⟩⟩,
      List.forall_mem_nil _⟩
  · rintro ⟨hdeleted, hreadonly, hc, ⟨v, w, hupdates, hothers, haccepts⟩, -⟩
    obtain ⟨updates, others, rfl, rfl, helements⟩ := listView_accepts_iff.1 haccepts
    have hlength := helements.length_eq
    exact ⟨"", (hflag _ _).2 hdeleted, "", (hflag _ _).2 hreadonly, "", hcreated.2 hc,
      updates, hupdates, others, hothers, ⟨rfl, rfl, rfl, hlength, List.forall_mem_nil _⟩,
      (elements_eq_none_iff decides_ovlUpdate hlength).2 helements⟩

/-- The parts of a document that are compared. -/
def documentView (number : String → Option δ) : TreeView number :=
  objectView [("data", wholeView number), ("metadata", wholeView number)]

theorem decides_ovlDocument : Decides (ovlDocumentEquals number) (documentView number) := by
  intro v w
  apply objects_eq_none_iff
  intro o p
  have hmember : ∀ key, memberResult key (ovlKeyValueWithMaskEquals number key) o p = .ok none ↔
      PartAccepts (key, wholeView number) o p := fun key =>
    memberResult_eq_none_iff (decides_ovlKeyValue _ _)
  simp only [bind_eq_ok, conclude_eq_none_iff, List.forall_mem_cons, verdictText_eq_empty_iff]
  constructor
  · rintro ⟨_, hdata, _, hmetadata, ⟨rfl, rfl, -⟩, -⟩
    exact ⟨(hmember _).1 hdata, (hmember _).1 hmetadata, List.forall_mem_nil _⟩
  · rintro ⟨hdata, hmetadata, -⟩
    exact ⟨none, (hmember _).2 hdata, none, (hmember _).2 hmetadata, ⟨rfl, rfl, List.forall_mem_nil _⟩, trivial⟩

/-- The list of the aliases that is compared. -/
def aliasesView (number : String → Option δ) : TreeView number :=
  objectView [("active", listView (entryView number))]

theorem decides_ovlAliases :
    Decides
      (ovlMovableListEquals "aliases" (ovlKeyValueTimeStampEquals number true "value")
        (ovlKeyValueTimeStampToString true))
      (aliasesView number) := by
  intro v w
  apply objects_eq_none_iff
  intro o p
  have hentries := @decides_ovlKeyValueTimeStamp _ number _ true "value"
  simp only [bind_eq_ok, conclude_eq_none_iff, List.forall_mem_cons, arrayAt_eq_ok,
    sizeDifference_eq_empty_iff]
  constructor
  · rintro ⟨active, hactive, others, hothers, ⟨hlength, -⟩, hwalk⟩
    have helements := (elements_eq_none_iff hentries hlength).1 hwalk
    exact ⟨⟨_, _, hactive, hothers, listView_accepts_iff.2 ⟨active, others, rfl, rfl, helements⟩⟩,
      List.forall_mem_nil _⟩
  · rintro ⟨⟨v, w, hactive, hothers, haccepts⟩, -⟩
    obtain ⟨active, others, rfl, rfl, helements⟩ := listView_accepts_iff.1 haccepts
    have hlength := helements.length_eq
    exact ⟨active, hactive, others, hothers, ⟨hlength, List.forall_mem_nil _⟩,
      (elements_eq_none_iff hentries hlength).2 helements⟩

/-! ## Sections of a record -/

/-- The views of the sections, in the order in which they are compared. -/
def sectionViews (number : String → Option δ) : List (Part String (SameTree number)) :=
  [("document", documentView number),
    ("comments", listView (wholeView number)),
    ("origin", originView number),
    ("version", wholeView number),
    ("collection", wholeView number),
    ("configtype", wholeView number),
    ("configurations", listView (entryView number)),
    ("changelog", wholeView number),
    ("bookkeeping", bookkeepingView number),
    ("_id", wholeView number),
    ("entities", listView (entryView number)),
    ("runs", listView (entryView number)),
    ("aliases", aliasesView number),
    ("attachments", listView (wholeView number))]

theorem decides_sections :
    List.Forall₂
      (fun (compared : String × Comparison) (part : Part String (SameTree number)) =>
        compared.1 = part.1 ∧ Decides compared.2 part.2)
      (sectionComparisons number) (sectionViews number) := by
  have hentries : ∀ key, Decides (entryListEquals number key) (listView (entryView number)) :=
    fun key => decides_ovlFixedList (decides_ovlKeyValueTimeStamp false "value") key _
  have hwhole : ∀ key toText, Decides (ovlKeyValueEquals number key toText) (wholeView number) :=
    decides_ovlKeyValue
  have hlist : ∀ key toText elementToString,
      Decides (ovlFixedListEquals key (ovlKeyValueEquals number "value" toText) elementToString)
        (listView (wholeView number)) := decides_wholeList
  simp only [sectionComparisons, sectionViews, List.forall₂_cons, List.Forall₂.nil, true_and,
    and_true]
  exact ⟨decides_ovlDocument, hlist _ _ _, decides_ovlOrigin, hwhole _ _, hwhole _ _,
    hwhole _ _, hentries _, hwhole _ _, decides_ovlBookkeeping, hwhole _ _, hentries _,
    hentries _, decides_ovlAliases, hlist _ _ _⟩

/-- The comparison of records succeeds when that of each section does. -/
theorem ovlDatabaseRecordEquals_eq_none_iff {r s : Object} :
    ovlDatabaseRecordEquals number r s = .ok none ↔
      ∀ part ∈ sectionViews number, PartAccepts part r s := by
  have hsections : ∀ {compared : List (String × Comparison)}
      {parts : List (Part String (SameTree number))},
      List.Forall₂ (fun c (part : Part String (SameTree number)) =>
        c.1 = part.1 ∧ Decides c.2 part.2) compared parts →
      ((∃ results, compared.mapM (fun c => memberResult c.1 c.2 r s) = .ok results ∧
          ∀ result ∈ results, result = none) ↔ ∀ part ∈ parts, PartAccepts part r s) := by
    intro compared parts hdecides
    induction hdecides with
    | nil => simp [pure, Except.pure]
    | @cons c part compared parts hhead _ ih =>
        have hfirst : memberResult c.1 c.2 r s = .ok none ↔ PartAccepts part r s := by
          rw [hhead.1]
          exact memberResult_eq_none_iff hhead.2
        rw [List.forall_mem_cons, ← hfirst, ← ih]
        simp only [List.mapM_cons, bind_eq_ok, pure, Except.pure, Except.ok.injEq]
        constructor
        · rintro ⟨_, ⟨result, hresult, results, hresults, rfl⟩, hnone⟩
          rw [List.forall_mem_cons] at hnone
          rw [hnone.1] at hresult
          exact ⟨hresult, results, hresults, hnone.2⟩
        · rintro ⟨hresult, results, hresults, hnone⟩
          exact ⟨_, ⟨none, hresult, results, hresults, rfl⟩,
            List.forall_mem_cons.2 ⟨rfl, hnone⟩⟩
  rw [← hsections decides_sections, ovlDatabaseRecordEquals, bind_eq_ok]
  simp only [conclude_eq_none_iff, List.forall_mem_map, verdictText_eq_empty_iff, and_true]

end Decisions

/-! ## Records under an overlay -/

/-- A record that an overlay is attached to. -/
structure DatabaseRecord where
  members : Object
  overlaid : ∃ env document, ovlDatabaseRecord env document = .ok members

/-- The value at the end of a path in a record. -/
def DatabaseRecord.at (path : List String) (r : DatabaseRecord) : Option Value :=
  NamedPaths.find path (.object r.members)

/-- `comapreUsingOverlays` reports success. -/
def RecordsEqual [DecidableEq δ] (number : String → Option δ) (r s : DatabaseRecord) : Prop :=
  ovlDatabaseRecordEquals number r.members s.members = .ok none

instance [DecidableEq δ] (number : String → Option δ) (r s : DatabaseRecord) :
    Decidable (RecordsEqual number r s) :=
  inferInstanceAs (Decidable (_ = _))

def sectionPaths : List (List String) :=
  [["document", "data"], ["document", "metadata"], ["document", "search"], ["comments"],
    ["origin"], ["version"], ["collection"], ["configtype"], ["configurations"], ["changelog"],
    ["bookkeeping"], ["_id"], ["entities"], ["runs"], ["aliases", "active"],
    ["aliases", "history"], ["attachments"]]

/-- The sections are equal as trees. -/
def SameSections (number : String → Option δ) (r s : DatabaseRecord) : Prop :=
  ∀ path ∈ sectionPaths, Option.Rel (SameTree number) (r.at path) (s.at path)

/-- What is seen of each section. -/
def recordParts (number : String → Option δ) : List (Part (List String) (SameTree number)) :=
  [(["document", "data"], wholeView number), (["document", "metadata"], wholeView number),
    (["document", "search"], View.hidden _), (["comments"], listView (wholeView number)),
    (["origin"], originView number), (["version"], wholeView number),
    (["collection"], wholeView number), (["configtype"], wholeView number),
    (["configurations"], listView (entryView number)), (["changelog"], wholeView number),
    (["bookkeeping"], bookkeepingView number), (["_id"], wholeView number),
    (["entities"], listView (entryView number)), (["runs"], listView (entryView number)),
    (["aliases", "active"], listView (entryView number)),
    (["aliases", "history"], View.hidden _), (["attachments"], listView (wholeView number))]

def recordView (number : String → Option δ) :
    View (SameParts DatabaseRecord.at (recordParts number)) :=
  View.fields DatabaseRecord.at (recordParts number)

theorem sameParts_iff {r s : DatabaseRecord} :
    SameParts DatabaseRecord.at (recordParts number) r s ↔ SameSections number r s :=
  List.forall_mem_map (f := Prod.fst) (l := recordParts number)
    (P := fun path => Option.Rel (SameTree number) (r.at path) (s.at path)) |>.symm

theorem DatabaseRecord.at_section (r : DatabaseRecord) (key : String) :
    r.at [key] = lookup key r.members := by
  change (lookup key r.members).bind (NamedPaths.find []) = lookup key r.members
  cases lookup key r.members <;> rfl

theorem DatabaseRecord.at_member
    {r : DatabaseRecord} {key : String} {o : Object}
    (hsection : lookup key r.members = some (.object o)) (member : String) :
    r.at [key, member] = lookup member o := by
  change (lookup key r.members).bind (NamedPaths.find [member]) = lookup member o
  rw [hsection]
  change (lookup member o).bind (NamedPaths.find []) = lookup member o
  cases lookup member o <;> rfl

/-- A section of the record that is an object has its own sections. -/
theorem DatabaseRecord.section_object
    (r : DatabaseRecord) {s : Section} (hs : s ∈ recordSections) {inner : List Section}
    (hinner : s.normalize = overlayObject inner) (hnodup : (inner.map Section.key).Nodup) :
    ∃ o, lookup s.key r.members = some (.object o) ∧
      ∀ member ∈ inner, ∃ v, lookup member.key o = some v := by
  obtain ⟨env, document, hoverlaid⟩ := r.overlaid
  obtain ⟨w, hw⟩ := applySections_result recordSections_nodup hoverlaid hs
  obtain ⟨v, -, hnormalize⟩ := hw.normalized
  rw [hinner] at hnormalize
  obtain ⟨o, o', -, happly, rfl⟩ := overlayObject_eq_ok.1 hnormalize
  refine ⟨o', hw.lookup_eq, fun member hmember => ?_⟩
  obtain ⟨v, hv⟩ := applySections_result hnodup happly hmember
  exact ⟨v, hv.lookup_eq⟩

/-- What a path leads to is there on both sides, and accepted. -/
def PathAccepts (part : Part (List String) (SameTree number)) (r s : DatabaseRecord) : Prop :=
  ∃ v w, r.at part.1 = some v ∧ s.at part.1 = some w ∧ part.2.Accepts v w

theorem pathAccepts_section
    {key : String} {V : TreeView number} {r s : DatabaseRecord} :
    PathAccepts ([key], V) r s ↔ PartAccepts (key, V) r.members s.members := by
  simp only [PathAccepts, PartAccepts, DatabaseRecord.at_section]

/-- An object is accepted when the paths to its parts are. -/
theorem pathAccepts_members
    {key : String} {parts : List (Part String (SameTree number))} {r s : DatabaseRecord}
    {o p : Object} (hr : lookup key r.members = some (.object o))
    (hs : lookup key s.members = some (.object p)) :
    PartAccepts (key, objectView parts) r.members s.members ↔
      ∀ part ∈ parts, PathAccepts ([key, part.1], part.2) r s := by
  simp only [PathAccepts, DatabaseRecord.at_member hr, DatabaseRecord.at_member hs]
  constructor
  · rintro ⟨v, w, hv, hw, haccepts⟩
    obtain ⟨o', p', rfl, rfl, hparts⟩ := objectView_accepts_iff.1 haccepts
    rw [hr, Option.some.injEq, Value.object.injEq] at hv
    rw [hs, Option.some.injEq, Value.object.injEq] at hw
    rw [hv, hw]
    exact hparts
  · intro hparts
    exact ⟨_, _, hr, hs, objectView_accepts_iff.2 ⟨o, p, rfl, rfl, hparts⟩⟩

theorem pathAccepts_hidden
    {path : List String} {r s : DatabaseRecord} {v w : Value} (hr : r.at path = some v)
    (hs : s.at path = some w) :
    @PathAccepts _ number (path, View.hidden _) r s :=
  ⟨v, w, hr, hs, trivial, trivial⟩

section Records

variable [DecidableEq δ]

/-- The comparison of two records is their view. -/
theorem recordsEqual_iff_accepts (r s : DatabaseRecord) :
    RecordsEqual number r s ↔ (recordView number).Accepts r s := by
  have hdocument : ∀ r : DatabaseRecord, ∃ o, lookup "document" r.members = some (.object o) ∧
      ∃ v, r.at ["document", "search"] = some v := by
    intro r
    obtain ⟨o, ho, hinner⟩ := r.section_object
      (s := ⟨"document", valueDefault (.object []), false, ovlDocument⟩)
      (by simp [recordSections]) rfl (by decide)
    obtain ⟨v, hv⟩ := hinner
      ⟨"search", valueDefault (.array []), false, ovlFixedList ovlKeyValue⟩ (by simp)
    exact ⟨o, ho, v, (DatabaseRecord.at_member ho _).trans hv⟩
  have haliases : ∀ r : DatabaseRecord, ∃ o, lookup "aliases" r.members = some (.object o) ∧
      ∃ v, r.at ["aliases", "history"] = some v := by
    intro r
    obtain ⟨o, ho, hinner⟩ := r.section_object
      (s := ⟨"aliases", valueDefault (.object []), false, ovlAliases⟩)
      (by simp [recordSections]) rfl (by decide)
    obtain ⟨v, hv⟩ := hinner
      ⟨"history", valueDefault (.array []), false, ovlFixedList ovlAlias⟩
      (by simp [aliasesSections])
    exact ⟨o, ho, v, (DatabaseRecord.at_member ho _).trans hv⟩
  obtain ⟨o, ho, v, hv⟩ := hdocument r
  obtain ⟨p, hp, w, hw⟩ := hdocument s
  obtain ⟨o', ho', v', hv'⟩ := haliases r
  obtain ⟨p', hp', w', hw'⟩ := haliases s
  have hseen : RecordsEqual number r s ↔
      ∀ part ∈ sectionViews number, PartAccepts part r.members s.members :=
    ovlDatabaseRecordEquals_eq_none_iff
  have hpaths : (recordView number).Accepts r s ↔
      ∀ part ∈ recordParts number, PathAccepts part r s :=
    View.fields_accepts_iff DatabaseRecord.at
  have hsearch := @pathAccepts_hidden _ number _ _ _ _ _ hv hw
  have hhistory := @pathAccepts_hidden _ number _ _ _ _ _ hv' hw'
  rw [hseen, hpaths]
  simp only [sectionViews, recordParts, List.forall_mem_cons, documentView, aliasesView,
    pathAccepts_members ho hp, pathAccepts_members ho' hp', pathAccepts_section, hsearch,
    hhistory, true_and, List.not_mem_nil, false_implies, implies_true, and_true, and_assoc]

/-- Two records that look the same are told apart rightly unless they differ where
nothing is compared, or hold something else where a text or a flag is read; and success
is a partial equivalence, which leaves out no record that can be read. -/
theorem recordComparison_iff (number : String → Option δ) :
    (∀ r s : DatabaseRecord, (RecordsEqual number r s ↔ SameSections number r s) ↔
        ((recordView number).alike r s →
          ((recordView number).readable r ↔ (recordView number).unseen r s))) ∧
      (∀ r, SameSections number r r →
        (RecordsEqual number r r ↔ (recordView number).readable r)) ∧
      (∀ r s, RecordsEqual number r s → RecordsEqual number s r) ∧
      ∀ r s t, RecordsEqual number r s → RecordsEqual number s t → RecordsEqual number r t := by
  simp only [recordsEqual_iff_accepts, ← sameParts_iff]
  refine ⟨(recordView number).accepts_iff_same_iff, fun r hself => View.accepts_self_iff hself,
    fun r s h => h.symm, fun r s t hfirst hsecond => hfirst.trans hsecond⟩

end Records

theorem sameSections_refl (hnumber : ∀ text, number text ≠ none) (r : DatabaseRecord) :
    SameSections number r r := by
  intro path _
  cases r.at path with
  | none => exact Option.Rel.none
  | some v => exact Option.Rel.some (sameTree_refl hnumber v)

/-! ## Records that differ out of sight -/

def exampleRecord
    (document : Object)
    (hoverlaid : ovlDatabaseRecord exampleEnvironment document =
      .ok (overlaidRecord document)) : DatabaseRecord :=
  ⟨overlaidRecord document, exampleEnvironment, document, hoverlaid⟩

def plainRecord : DatabaseRecord :=
  exampleRecord [] (by decide)

def versionedRecord : DatabaseRecord :=
  exampleRecord [("version", .string "v2")] (by decide)

/-- An alias was removed from the record. -/
def unaliasedRecord : DatabaseRecord :=
  exampleRecord
    [("aliases", .object [("history", .array [stampedAlias exampleEnvironment "gold"])])]
    (by decide)

def searchedRecord : DatabaseRecord :=
  exampleRecord [("document", .object [("search", .array [.string "beam"])])] (by decide)

/-- A record equals itself, and differs from one with another version. -/
theorem recordComparison_iff_versioned :
    (RecordsEqual some plainRecord versionedRecord ↔
        SameSections some plainRecord versionedRecord) ∧
      (RecordsEqual some plainRecord plainRecord ↔ (recordView some).readable plainRecord) := by
  have htheorem := recordComparison_iff (fun text => some text)
  refine ⟨(htheorem.1 plainRecord versionedRecord).2 fun halike => ?_,
    htheorem.2.1 plainRecord (sameSections_refl (fun _ => Option.some_ne_none _) _)⟩
  have hversion := halike (["version"], wholeView _) (by simp [recordParts])
  cases hversion with
  | some h => exact absurd ((valuesEqual_iff _ _).2 h) (by decide)

/-- Neither the search of a document nor the history of the aliases is compared. -/
theorem recordsEqual_misses_history :
    RecordsEqual some plainRecord unaliasedRecord ∧
      ¬ SameSections some plainRecord unaliasedRecord ∧
      RecordsEqual some plainRecord searchedRecord ∧
      ¬ SameSections some plainRecord searchedRecord := by
  refine ⟨by decide, fun hsame => ?_, by decide, fun hsame => ?_⟩
  · have hhistory := hsame ["aliases", "history"] (by simp [sectionPaths])
    cases hhistory with
    | some h =>
        cases h with
        | array h => cases h
  · have hsearch := hsame ["document", "search"] (by simp [sectionPaths])
    cases hsearch with
    | some h =>
        cases h with
        | array h => cases h

end ArtdaqDatabase
