import ArtdaqDatabase.JsonWriter
import ArtdaqDatabase.StableSort
import Mathlib.Data.String.Basic

/-!
# Presorted documents

`presort_gui_json_by_name` reads a document, sorts its search array by name and writes it
again.  The tree keeps a decimal as the text it was read from.  Its value, and the text
that is printed for the value, are left to the number formats.
-/

namespace ArtdaqDatabase

open OrderedTable StableSort

/-! ## The sort -/

def extractNameFromAst (obj : Object) : String :=
  match lookup "name" obj with
  | some (.string text) => text
  | _ => ""

/-- The name that an element is sorted by. -/
def elementName : Value → String
  | .object obj => extractNameFromAst obj
  | _ => ""

def nameComparator (a b : Value) : Bool :=
  decide (elementName a < elementName b)

/-- `std::list::sort`. -/
def sortByName (values : List Value) : List Value :=
  values.mergeSort fun a b => !nameComparator b a

/-- The search array, if it is one and has elements. -/
def searchArray (ast : Object) : Option (List Value) :=
  match lookup "search" ast with
  | some (.array (v :: values)) => some (v :: values)
  | _ => none

theorem sortByName_eq (values : List Value) : sortByName values = sort elementName values := by
  have horder : ∀ a b, (!nameComparator b a) = decide (elementName a ≤ elementName b) := by
    intro a b
    rw [nameComparator, ← decide_not]
    exact decide_eq_decide.2 not_lt
  simp only [sortByName, sort, horder]

/-! ## Numbers in the tree -/

section

variable {δ : Type} (value : List Char → δ) (print : δ → List Char)

/-- The text that is printed for a number. -/
def printedNumber (text : String) : String :=
  String.ofList (print (value text.toList))

mutual

/-- The tree as the writer prints it. -/
def Value.printed : Value → Value
  | .object members => .object (printedMembers members)
  | .array values => .array (printedValues values)
  | .string text => .string text
  | .decimal text => .decimal (printedNumber value print text)
  | .integer number => .integer number
  | .boolean flag => .boolean flag

def printedValues : List Value → List Value
  | [] => []
  | v :: values => v.printed :: printedValues values

def printedMembers : List (String × Value) → List (String × Value)
  | [] => []
  | (key, v) :: members => (key, v.printed) :: printedMembers members

end

mutual

/-- The same tree, with numbers compared by their values. -/
def Value.SameParse : Value → Value → Prop
  | .object members, .object others => membersSameParse members others
  | .array values, .array others => valuesSameParse values others
  | .string text, .string other => text = other
  | .decimal text, .decimal other => value text.toList = value other.toList
  | .integer number, .integer other => number = other
  | .boolean flag, .boolean other => flag = other
  | _, _ => False

def valuesSameParse : List Value → List Value → Prop
  | [], [] => True
  | v :: values, w :: others => v.SameParse w ∧ valuesSameParse values others
  | _, _ => False

def membersSameParse : List (String × Value) → List (String × Value) → Prop
  | [], [] => True
  | (key, v) :: members, (key', w) :: others =>
      key = key' ∧ v.SameParse w ∧ membersSameParse members others
  | _, _ => False

end

mutual

/-- Every number is read again as itself, after it was printed. -/
def Value.Survives : Value → Prop
  | .object members => allMembersSurvive members
  | .array values => allValuesSurvive values
  | .decimal text =>
      (Value.decimal text).SameParse value
        (rereadNumber String.ofList (printedNumber value print text))
  | .string _ | .integer _ | .boolean _ => True

def allValuesSurvive : List Value → Prop
  | [] => True
  | v :: values => v.Survives ∧ allValuesSurvive values

def allMembersSurvive : List (String × Value) → Prop
  | [] => True
  | (_, v) :: members => v.Survives ∧ allMembersSurvive members

end

/-- `presort_gui_json_by_name`. -/
def presortGuiJsonByName (json : String) : Except Failure String := do
  match ← JsonReader.read String.ofList json with
  | none => return json
  | some ast =>
      match searchArray ast with
      | none => return json
      | some values =>
          JsonWriter.write
            (printedMembers value print (set "search" (.array (sortByName values)) ast))

end

/-- The object that a text is, with nothing but blanks behind it. -/
def wholeObject (text : String) : Option Object :=
  match objectRule (valueRule String.ofList text.length) text.toList with
  | some (ast, rest) => if rest.all isSpace then some ast else none
  | none => none

/-! ## Members and elements -/

section

variable {δ : Type} {value : List Char → δ} {print : δ → List Char}

theorem mem_printedMembers {members : List (String × Value)} {m : String × Value} :
    m ∈ printedMembers value print members ↔
      ∃ n ∈ members, (n.1, n.2.printed value print) = m := by
  induction members with
  | nil => simp [printedMembers]
  | cons n members ih =>
      rw [printedMembers, List.mem_cons, ih]
      simp [eq_comm]

theorem printedValues_eq (values : List Value) :
    printedValues value print values = values.map (Value.printed value print) := by
  induction values with
  | nil => rfl
  | cons v values ih => rw [printedValues, ih, List.map_cons]

theorem allValuesSurvive_iff {values : List Value} :
    allValuesSurvive value print values ↔ ∀ v ∈ values, v.Survives value print := by
  induction values with
  | nil => simp [allValuesSurvive]
  | cons v values ih => simp [allValuesSurvive, ih]

theorem allMembersSurvive_iff {members : List (String × Value)} :
    allMembersSurvive value print members ↔ ∀ m ∈ members, m.2.Survives value print := by
  induction members with
  | nil => simp [allMembersSurvive]
  | cons m members ih => simp [allMembersSurvive, ih]

mutual

theorem Value.sameParse_reread_printed (v : Value) :
    v.SameParse value ((v.printed value print).reread String.ofList) ↔
      v.Survives value print := by
  cases v with
  | object members => exact membersSameParse_reread_printed members
  | array values => exact valuesSameParse_reread_printed values
  | decimal text => exact Iff.rfl
  | string | integer | boolean => simp [Value.printed, Value.reread, Value.SameParse, Value.Survives]

theorem valuesSameParse_reread_printed (values : List Value) :
    valuesSameParse value values (rereadValues String.ofList (printedValues value print values)) ↔
      allValuesSurvive value print values := by
  cases values with
  | nil => exact Iff.rfl
  | cons v values =>
      exact and_congr v.sameParse_reread_printed (valuesSameParse_reread_printed values)

theorem membersSameParse_reread_printed (members : List (String × Value)) :
    membersSameParse value members
        (rereadMembers String.ofList (printedMembers value print members)) ↔
      allMembersSurvive value print members := by
  cases members with
  | nil => exact Iff.rfl
  | cons m members =>
      exact (and_iff_right rfl).trans
        (and_congr m.2.sameParse_reread_printed (membersSameParse_reread_printed members))

end

mutual

/-- Numbers with one value are printed as one text. -/
theorem Value.SameParse.printed_eq (v w : Value) (h : v.SameParse value w) :
    v.printed value print = w.printed value print := by
  cases v with
  | object members =>
      cases w with
      | object others => rw [Value.printed, Value.printed, membersSameParse_printed members others h]
      | _ => exact h.elim
  | array values =>
      cases w with
      | array others => rw [Value.printed, Value.printed, valuesSameParse_printed values others h]
      | _ => exact h.elim
  | decimal text =>
      cases w with
      | decimal other =>
          have hvalue : value text.toList = value other.toList := h
          rw [Value.printed, Value.printed, printedNumber, printedNumber, hvalue]
      | _ => exact h.elim
  | string | integer | boolean =>
      cases w with
      | string | integer | boolean => simp_all [Value.SameParse]
      | _ => exact h.elim

theorem valuesSameParse_printed (values others : List Value)
    (h : valuesSameParse value values others) :
    printedValues value print values = printedValues value print others := by
  cases values with
  | nil =>
      cases others with
      | nil => rfl
      | cons w others => exact h.elim
  | cons v values =>
      cases others with
      | nil => exact h.elim
      | cons w others =>
          rw [printedValues, printedValues, Value.SameParse.printed_eq v w h.1,
            valuesSameParse_printed values others h.2]

theorem membersSameParse_printed (members others : List (String × Value))
    (h : membersSameParse value members others) :
    printedMembers value print members = printedMembers value print others := by
  cases members with
  | nil =>
      cases others with
      | nil => rfl
      | cons w others => exact h.elim
  | cons m members =>
      cases others with
      | nil => exact h.elim
      | cons n others =>
          obtain ⟨hkey, hvalue, hrest⟩ := h
          rw [printedMembers, printedMembers, hkey, Value.SameParse.printed_eq m.2 n.2 hvalue,
            membersSameParse_printed members others hrest]

end

theorem membersSameParse_lookup {members others : List (String × Value)}
    (h : membersSameParse value members others) (key : String) :
    (lookup key members = none ∧ lookup key others = none) ∨
      ∃ v w, lookup key members = some v ∧ lookup key others = some w ∧ v.SameParse value w := by
  induction members generalizing others with
  | nil =>
      cases others with
      | nil => exact Or.inl ⟨rfl, rfl⟩
      | cons n others => exact h.elim
  | cons m members ih =>
      cases others with
      | nil => exact h.elim
      | cons n others =>
          obtain ⟨key₁, v⟩ := m
          obtain ⟨key₂, w⟩ := n
          obtain ⟨rfl, hvalue, hrest⟩ := h
          unfold lookup
          split
          · exact Or.inr ⟨v, w, rfl, rfl, hvalue⟩
          · exact ih hrest

theorem Value.SameParse.elementName_eq {v w : Value} (h : v.SameParse value w) :
    elementName v = elementName w := by
  cases v with
  | object members =>
      cases w with
      | object others =>
          rw [elementName, elementName, extractNameFromAst, extractNameFromAst]
          obtain ⟨hv, hw⟩ | ⟨v, w, hv, hw, hname⟩ := membersSameParse_lookup h "name"
          · rw [hv, hw]
          · rw [hv, hw]
            cases v <;> cases w <;> first | exact hname.elim | rfl | exact hname
      | _ => exact h.elim
  | array values =>
      cases w with
      | array others => rfl
      | _ => exact h.elim
  | string | decimal | integer | boolean =>
      cases w with
      | string | decimal | integer | boolean => rfl
      | _ => exact h.elim

theorem valuesSameParse_names {values others : List Value} (h : valuesSameParse value values others) :
    values.map elementName = others.map elementName := by
  induction values generalizing others with
  | nil =>
      cases others with
      | nil => rfl
      | cons w others => exact h.elim
  | cons v values ih =>
      cases others with
      | nil => exact h.elim
      | cons w others => rw [List.map_cons, List.map_cons, h.1.elementName_eq, ih h.2]

theorem searchArray_eq_some {ast : Object} {values : List Value}
    (h : searchArray ast = some values) :
    lookup "search" ast = some (.array values) ∧ values ≠ [] := by
  unfold searchArray at h
  split at h
  · rename_i v rest hlookup
    cases h
    exact ⟨hlookup, List.cons_ne_nil v rest⟩
  · cases h

theorem searchArray_of_lookup {ast : Object} {values : List Value}
    (h : lookup "search" ast = some (.array values)) (hne : values ≠ []) :
    searchArray ast = some values := by
  obtain ⟨v, rest, rfl⟩ := List.exists_cons_of_ne_nil hne
  rw [searchArray, h]

theorem membersSameParse_searchArray {ast other : Object} {values : List Value}
    (h : membersSameParse value ast other) (hvalues : searchArray ast = some values) :
    ∃ others, searchArray other = some others ∧ valuesSameParse value values others := by
  obtain ⟨hlookup, hne⟩ := searchArray_eq_some hvalues
  obtain ⟨hv, -⟩ | ⟨v, w, hv, hw, hsame⟩ := membersSameParse_lookup h "search"
  · rw [hlookup] at hv
    cases hv
  · rw [hlookup, Option.some.injEq] at hv
    subst hv
    cases w with
    | array others =>
        refine ⟨others, searchArray_of_lookup hw ?_, hsame⟩
        rintro rfl
        have hnames := valuesSameParse_names hsame
        exact hne (List.map_eq_nil_iff.1 hnames)
    | _ => exact hsame.elim

/-! ## What is read can be printed -/

variable (hprint : ∀ number, ReadsNumber (print number))

include hprint in
theorem read_printed {depth : ℕ} {input rest : List Char} {ast : Object}
    (h : objectRule (valueRule String.ofList depth) input = some (ast, rest)) :
    (Value.object ast).printed value print |>.Printable := by
  have hvalues : Scanner.Yields (valueRule String.ofList (depth + 1))
      fun v => (v.printed value print).Printable := by
    apply yields_valueRule_of
    · intro members hmembers
      apply membersPrintable_iff.2
      intro m hm
      obtain ⟨n, hn, rfl⟩ := mem_printedMembers.1 hm
      exact hmembers n hn
    · intro values hvalues
      apply valuesPrintable_iff.2
      intro v hv
      rw [printedValues_eq] at hv
      obtain ⟨w, hw, rfl⟩ := List.mem_map.1 hv
      exact hvalues w hw
    · exact fun _ htext => htext
    · exact fun _ hn => hn
    · intro digits
      change ReadsNumber (String.ofList _).toList
      rw [String.toList_ofList]
      exact hprint _
    · exact fun _ => trivial
  exact hvalues input (.object ast) rest (valueRule_of_objectRule String.ofList h)

/-! ## The sorted document -/

section

variable {ast : Object} {values : List Value}

theorem isSorting_sortByName (values : List Value) :
    IsSorting elementName values (sortByName values) := by
  rw [sortByName_eq]
  exact isSorting_sort elementName values

variable (value) in
include hprint in
/-- The document with a rearranged search array can be printed. -/
theorem printable_set {depth : ℕ} {input rest : List Char}
    (hrun : objectRule (valueRule String.ofList depth) input = some (ast, rest))
    (hvalues : searchArray ast = some values) {sorted : List Value} (hperm : sorted.Perm values) :
    membersPrintable (printedMembers value print (set "search" (.array sorted) ast)) := by
  have hast : membersPrintable (printedMembers value print ast) := read_printed hprint hrun
  obtain ⟨hlookup, -⟩ := searchArray_eq_some hvalues
  have harray := membersPrintable_iff.1 hast _
    (mem_printedMembers.2 ⟨_, mem_of_lookup hlookup, rfl⟩)
  apply membersPrintable_iff.2
  intro m hm
  obtain ⟨n, hn, rfl⟩ := mem_printedMembers.1 hm
  rcases mem_set hn with rfl | hn
  · refine ⟨show isRawText "search".toList = true by decide, valuesPrintable_iff.2 ?_⟩
    intro v hv
    rw [printedValues_eq] at hv
    have hall := valuesPrintable_iff.1 harray.2
    rw [printedValues_eq] at hall
    exact hall v ((hperm.map _).subset hv)
  · exact membersPrintable_iff.1 hast _ (mem_printedMembers.2 ⟨n, hn, rfl⟩)

theorem allMembersSurvive_set (hvalues : searchArray ast = some values) {sorted : List Value}
    (hperm : sorted.Perm values) :
    allMembersSurvive value print (set "search" (.array sorted) ast) ↔
      allMembersSurvive value print ast := by
  obtain ⟨hlookup, -⟩ := searchArray_eq_some hvalues
  rw [allMembersSurvive_iff, allMembersSurvive_iff]
  apply forall_mem_set_iff hlookup
  change allValuesSurvive value print sorted ↔ allValuesSurvive value print values
  rw [allValuesSurvive_iff, allValuesSurvive_iff]
  exact ⟨fun h v hv => h v (hperm.symm.subset hv), fun h v hv => h v (hperm.subset hv)⟩

variable {text : String} {rest : List Char}

variable (value print) in
theorem presort_eq
    (htext : text ≠ "")
    (hrun : objectRule (valueRule String.ofList text.length) text.toList = some (ast, rest))
    (hvalues : searchArray ast = some values) :
    presortGuiJsonByName value print text =
      .ok (writeValue (.object
        (printedMembers value print (set "search" (.array (sortByName values)) ast)))) := by
  have hne : printedMembers value print (set "search" (.array (sortByName values)) ast) ≠ [] := by
    obtain ⟨m, members, hm⟩ :=
      List.exists_cons_of_ne_nil (set_ne_nil "search" (.array (sortByName values)) ast)
    rw [hm, printedMembers]
    exact List.cons_ne_nil _ _
  have hread : JsonReader.read String.ofList text = .ok (some ast) := by
    simp [JsonReader.read, hrun, confirm, htext, bind, Except.bind, pure, Except.pure]
  rw [presortGuiJsonByName, hread]
  change (match searchArray ast with
    | none => _
    | some values => JsonWriter.write _) = _
  rw [hvalues]
  exact JsonWriter.write_ok hne

variable (value print) in
/-- Without a search array the text is handed back. -/
theorem presort_verbatim
    (htext : text ≠ "")
    (hrun : ∀ ast rest, objectRule (valueRule String.ofList text.length) text.toList =
      some (ast, rest) → searchArray ast = none) :
    presortGuiJsonByName value print text = .ok text := by
  rw [presortGuiJsonByName, JsonReader.read]
  cases h : objectRule (valueRule String.ofList text.length) text.toList with
  | none => simp [confirm, htext, bind, Except.bind, pure, Except.pure]
  | some x =>
      obtain ⟨ast, rest⟩ := x
      have hnone := hrun ast rest h
      simp [confirm, htext, hnone, bind, Except.bind, pure, Except.pure]

theorem wholeObject_eq_some :
    wholeObject text = some ast ↔
      ∃ rest, objectRule (valueRule String.ofList text.length) text.toList = some (ast, rest) ∧
        rest.all isSpace = true := by
  unfold wholeObject
  split
  · rename_i ast' rest h
    rw [h]
    constructor
    · intro hast
      split at hast
      · rename_i hrest
        cases hast
        exact ⟨rest, rfl, hrest⟩
      · cases hast
    · rintro ⟨rest', heq, hrest⟩
      cases heq
      rw [if_pos hrest]
  · rename_i h
    rw [h]
    simp

theorem wholeObject_writeValue {members : Object} (hmembers : membersPrintable members) :
    wholeObject (writeValue (.object members)) = some (rereadMembers String.ofList members) :=
  wholeObject_eq_some.2 ⟨[], objectRule_writeValue String.ofList hmembers, rfl⟩

end

/-! ## Presorting -/

/-- What the presort promises for a text. -/
structure Presorts (value : List Char → δ) (print : δ → List Char) (text : String) : Prop where
  verbatim : (∀ ast, wholeObject text = some ast → searchArray ast = none) →
    presortGuiJsonByName value print text = .ok text
  sorted : ∀ ast values, wholeObject text = some ast → searchArray ast = some values →
    ∃ result elements reread, presortGuiJsonByName value print text = .ok result ∧
      IsSorting elementName values elements ∧ wholeObject result = some reread ∧
      membersSameParse value (set "search" (.array elements) ast) reread
  twice : (presortGuiJsonByName value print text >>= presortGuiJsonByName value print) =
    presortGuiJsonByName value print text

/-- When an object with a search array is read from a text, nothing but blanks follows it and
its numbers survive. -/
def Faithful (value : List Char → δ) (print : δ → List Char) (text : String) : Prop :=
  ∀ ast rest values,
    objectRule (valueRule String.ofList text.length) text.toList = some (ast, rest) →
    searchArray ast = some values →
      rest.all isSpace = true ∧ allMembersSurvive value print ast

include hprint in
theorem faithful_of_presorts {text : String} (h : Presorts value print text) :
    text ≠ "" ∧ Faithful value print text := by
  have htext : text ≠ "" := by
    rintro rfl
    have hverbatim := h.verbatim (by
      intro ast hast
      cases hast)
    cases hverbatim
  refine ⟨htext, ?_⟩
  intro ast rest values hrun hvalues
  have hpresort := presort_eq value print htext hrun hvalues
  have hsorting := isSorting_sortByName values
  have hwhole := wholeObject_writeValue (printable_set value hprint hrun hvalues hsorting.perm)
  have hrest : rest.all isSpace = true := by
    by_contra hrest
    have hnone : ∀ other, wholeObject text ≠ some other := by
      intro other hother
      obtain ⟨rest', hrun', hrest'⟩ := wholeObject_eq_some.1 hother
      rw [hrun, Option.some.injEq, Prod.mk.injEq] at hrun'
      exact hrest (hrun'.2 ▸ hrest')
    have hverbatim := h.verbatim fun other hother => absurd hother (hnone other)
    rw [hpresort, Except.ok.injEq] at hverbatim
    rw [hverbatim] at hwhole
    exact hnone _ hwhole
  refine ⟨hrest, ?_⟩
  obtain ⟨result, elements, reread, hresult, helements, hreread, hsame⟩ :=
    h.sorted ast values (wholeObject_eq_some.2 ⟨rest, hrun, hrest⟩) hvalues
  rw [hpresort, Except.ok.injEq] at hresult
  rw [← hresult, hwhole, Option.some.injEq] at hreread
  rw [← hreread, helements.eq_sort, ← sortByName_eq] at hsame
  rw [← allMembersSurvive_set hvalues hsorting.perm]
  exact (membersSameParse_reread_printed _).1 hsame

include hprint in
/-- The sorted document, written and read, is sorted already. -/
theorem presort_sorted {depth : ℕ} {input rest : List Char} {ast : Object} {values : List Value}
    (hrun : objectRule (valueRule String.ofList depth) input = some (ast, rest))
    (hvalues : searchArray ast = some values)
    (hsame : membersSameParse value (set "search" (.array (sortByName values)) ast)
      (rereadMembers String.ofList
        (printedMembers value print (set "search" (.array (sortByName values)) ast)))) :
    presortGuiJsonByName value print (writeValue (.object
        (printedMembers value print (set "search" (.array (sortByName values)) ast)))) =
      .ok (writeValue (.object
        (printedMembers value print (set "search" (.array (sortByName values)) ast)))) := by
  have hsorting := isSorting_sortByName values
  have hprintable := printable_set value hprint hrun hvalues hsorting.perm
  have hne : sortByName values ≠ [] := by
    intro h
    rw [h] at hsorting
    exact (searchArray_eq_some hvalues).2 hsorting.perm.nil_eq.symm
  have hsearch : searchArray (set "search" (.array (sortByName values)) ast) =
      some (sortByName values) := searchArray_of_lookup (lookup_set_self _ _ _) hne
  obtain ⟨others, hothers, hsames⟩ := membersSameParse_searchArray hsame hsearch
  have hordered : others.Pairwise fun a b => elementName a ≤ elementName b := by
    have hnames := hsorting.ordered
    rw [← List.pairwise_map] at hnames ⊢
    rwa [← valuesSameParse_names hsames]
  have hagain := presort_eq value print (writeValue_object_ne hprintable)
    (objectRule_writeValue String.ofList hprintable) hothers
  rw [hagain, sortByName_eq others, sort_eq_self elementName hordered,
    set_of_lookup (searchArray_eq_some hothers).1, ← membersSameParse_printed _ _ hsame]

include hprint in
theorem presorts_of_faithful {text : String} (htext : text ≠ "")
    (hfaithful : Faithful value print text) : Presorts value print text := by
  by_cases hsearch : ∀ ast rest,
      objectRule (valueRule String.ofList text.length) text.toList = some (ast, rest) →
        searchArray ast = none
  · have hverbatim := presort_verbatim value print htext hsearch
    refine ⟨fun _ => hverbatim, ?_, by rw [hverbatim]; exact hverbatim⟩
    intro ast values hwhole hvalues
    obtain ⟨rest, hrun, -⟩ := wholeObject_eq_some.1 hwhole
    rw [hsearch ast rest hrun] at hvalues
    cases hvalues
  · simp only [not_forall] at hsearch
    obtain ⟨ast, rest, hrun, hsome⟩ := hsearch
    obtain ⟨values, hvalues⟩ := Option.ne_none_iff_exists'.1 hsome
    obtain ⟨hrest, hsurvive⟩ := hfaithful ast rest values hrun hvalues
    have hpresort := presort_eq value print htext hrun hvalues
    have hsorting := isSorting_sortByName values
    have hprintable := printable_set value hprint hrun hvalues hsorting.perm
    have hwhole := wholeObject_writeValue hprintable
    have hsame := (membersSameParse_reread_printed _).2
      ((allMembersSurvive_set hvalues hsorting.perm).2 hsurvive)
    have htext' := wholeObject_eq_some.2 ⟨rest, hrun, hrest⟩
    constructor
    · intro hnone
      rw [hnone ast htext'] at hvalues
      cases hvalues
    · intro ast' values' hast' hvalues'
      rw [htext', Option.some.injEq] at hast'
      subst hast'
      rw [hvalues, Option.some.injEq] at hvalues'
      subst hvalues'
      exact ⟨_, _, _, hpresort, hsorting, hwhole, hsame⟩
    · rw [hpresort]
      exact presort_sorted hprint hrun hvalues hsame

include hprint in
/-- The presort keeps its promises for exactly the texts that are not empty, and that end
with their object and have only numbers that survive, if there is a search array. -/
theorem presorts_iff (text : String) :
    Presorts value print text ↔ text ≠ "" ∧ Faithful value print text := by
  constructor
  · exact faithful_of_presorts hprint
  · rintro ⟨htext, hfaithful⟩
    exact presorts_of_faithful hprint htext hfaithful

end

theorem presorts_iff_two_names :
    Presorts (fun _ => ()) (fun _ => "1.5".toList)
        "\x7b\"search\":[\x7b\"name\":\"b\",\"x\":1.5\x7d,\x7b\"name\":\"a\"\x7d]\x7d" ↔
      "\x7b\"search\":[\x7b\"name\":\"b\",\"x\":1.5\x7d,\x7b\"name\":\"a\"\x7d]\x7d" ≠ "" ∧
        Faithful (fun _ => ()) (fun _ => "1.5".toList)
          "\x7b\"search\":[\x7b\"name\":\"b\",\"x\":1.5\x7d,\x7b\"name\":\"a\"\x7d]\x7d" :=
  presorts_iff (fun _ => readsNumber_oneAndAHalf) _

/-- `0.12345`, and `0.123` that is printed for it. -/
def fineValue (digits : List Char) : Bool :=
  digits = "0.12345".toList

def coarsePrint (_ : Bool) : List Char :=
  "0.123".toList

theorem readsNumber_coarsePrint (number : Bool) : ReadsNumber (coarsePrint number) := by
  refine Or.inl ⟨⟨[], ['0'], some ['1', '2', '3'], none⟩, ?_, by decide, rfl⟩
  constructor <;> simp [AllDigits, signs]

theorem presort_loses_digits :
    ¬ Presorts fineValue coarsePrint "\x7b\"search\":[0.12345]\x7d" := by
  intro h
  have hfaithful := (faithful_of_presorts readsNumber_coarsePrint h).2
  have hrun : objectRule (valueRule String.ofList "\x7b\"search\":[0.12345]\x7d".length)
      "\x7b\"search\":[0.12345]\x7d".toList =
        some ([("search", .array [.decimal "0.12345"])], []) := by
    decide +kernel
  obtain ⟨-, ⟨hsurvives, -⟩, -⟩ := hfaithful _ _ _ hrun rfl
  have hreread : rereadNumber String.ofList (printedNumber fineValue coarsePrint "0.12345") =
      .decimal "0.123" := by
    decide +kernel
  rw [Value.Survives, hreread] at hsurvives
  have hsame : fineValue "0.12345".toList = fineValue "0.123".toList := hsurvives
  exact absurd hsame (by decide)

end ArtdaqDatabase
