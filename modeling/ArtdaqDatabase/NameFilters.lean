import ArtdaqDatabase.InnerJoin

/-!
# The two name filters of the index

`_filtered_attribute_list` and `_indexed_filtered_innerjoin_over_ouid` each carry
their own `acceptValue`.  Both read characters of the pattern and of the name by
position, so a result `none` stands for a read outside one of them.  They agree
with each other, and with the pattern language that they stand for, except for the
empty pattern and for a name whose pattern is that name and a star.
-/

namespace ArtdaqDatabase

open OrderedTable InvertedIndex

/-! ## Patterns of names -/

/-- What a filter text asks for. -/
inductive NamePattern where
  | every
  | begins (stem : List Char)
  | exactly (name : List Char)
  deriving DecidableEq

namespace NamePattern

def ofText (text : List Char) : NamePattern :=
  if text = [] then every
  else if text.getLast? = some '*' then begins text.dropLast
  else exactly text

def accepts : NamePattern → List Char → Bool
  | every, _ => true
  | begins stem, name => stem.isPrefixOf name
  | exactly wanted, name => name = wanted

@[simp]
theorem ofText_nil : ofText [] = every := rfl

@[simp]
theorem ofText_append_star (stem : List Char) : ofText (stem ++ ['*']) = begins stem := by
  simp [ofText]

theorem ofText_of_last {text : List Char} {last : Char}
    (hlast : text.getLast? = some last) (hstar : last ≠ '*') :
    ofText text = exactly text := by
  have hne : text ≠ [] := by
    intro hnil
    simp [hnil] at hlast
  simp [ofText, hne, hlast, hstar]

end NamePattern

/-! ## Reads by position -/

/-- `std::string::back`. -/
def back (text : List Char) : Option Char := text.getLast?

/-- `std::equal` on three iterators: the second range has to be as long as the
first up to the first difference. -/
def equalFrom : List Char → List Char → Option Bool
  | [], _ => some true
  | _ :: _, [] => none
  | c :: first, d :: second => if c = d then equalFrom first second else some false

theorem equalFrom_of_length_le
    {first second : List Char} (hle : first.length ≤ second.length) :
    equalFrom first second = some (first.isPrefixOf second) := by
  induction first generalizing second with
  | nil => rfl
  | cons c first ih =>
      cases second with
      | nil => simp at hle
      | cons d second =>
          simp only [List.length_cons, Nat.add_le_add_iff_right] at hle
          by_cases hc : c = d
          · simp [equalFrom, hc, ih hle]
          · simp [equalFrom, hc, List.isPrefixOf]

/-- On texts of one length `std::equal` is equality. -/
theorem equalFrom_of_length_eq
    {first second : List Char} (heq : second.length = first.length) :
    equalFrom first second = some (decide (second = first)) := by
  rw [equalFrom_of_length_le heq.ge, Option.some.injEq, Bool.eq_iff_iff, List.isPrefixOf_iff_prefix,
    decide_eq_true_eq]
  constructor
  · intro hprefix
    exact (List.IsPrefix.eq_of_length hprefix heq.symm).symm
  · rintro rfl
    exact List.prefix_rfl

/-! ## The filters -/

/-- The comparison that both filters end with. -/
def equalToPattern (pattern value : List Char) (last : Char) : Option Bool :=
  if last ≠ '*' then
    if value.length = pattern.length then equalFrom pattern value else some false
  else equalFrom pattern.dropLast value

/-- `acceptValue` of `_filtered_attribute_list`. -/
def acceptAttribute (attributeBeginsWith value : String) : Option Bool :=
  let pattern := attributeBeginsWith.toList
  let name := value.toList
  if pattern.isEmpty then some true
  else if name.length < pattern.length then some false
  else back pattern >>= equalToPattern pattern name

/-- `acceptValue` of `_indexed_filtered_innerjoin_over_ouid`.  It reads the last
character of the pattern before anything else. -/
def acceptJoined (rightBeginsWith value : String) : Option Bool :=
  let pattern := rightBeginsWith.toList
  let name := value.toList
  back pattern >>= fun last =>
    if name.length < pattern.length - (if last = '*' then 1 else 0) then some false
    else equalToPattern pattern name last

/-- The loop over the names of a table. -/
def namesAccepted (accept : String → Option Bool) : Postings → Option (List String)
  | [] => some []
  | (name, _) :: rest => do
      let accepted ← accept name
      let names ← namesAccepted accept rest
      some (if accepted then name :: names else names)

/-- `SearchIndex::_filtered_attribute_list`, with `none` inside for a read outside
a name or the pattern. -/
def filteredAttributeList (index : SearchIndex) (what attributeBeginsWith : String) :
    Except Failure (Option (List String)) := do
  confirm (what ≠ "")
  let lookupTable ← index.tableAt what
  .ok (namesAccepted (acceptAttribute attributeBeginsWith) lookupTable)

theorem namesAccepted_eq_some
    {accept : String → Option Bool} {t : Postings} {names : List String} :
    namesAccepted accept t = some names ↔
      (∀ name ∈ t.map Prod.fst, accept name ≠ none) ∧
        names = (t.map Prod.fst).filter fun name => accept name = some true := by
  induction t generalizing names with
  | nil => simp [namesAccepted, eq_comm]
  | cons entry rest ih =>
      obtain ⟨name, ouids⟩ := entry
      simp only [namesAccepted, Option.bind_eq_bind, Option.bind_eq_some_iff, ih, List.map_cons,
        List.forall_mem_cons]
      cases haccept : accept name with
      | none => simp
      | some accepted => cases accepted <;> simp [haccept, eq_comm]

/-- A table is filtered as asked exactly when each of its names is. -/
theorem namesAccepted_eq_filter_iff
    {accept : String → Option Bool} {accepts : String → Bool} {t : Postings} :
    namesAccepted accept t = some ((t.map Prod.fst).filter accepts) ↔
      ∀ name ∈ t.map Prod.fst, accept name = some (accepts name) := by
  rw [namesAccepted_eq_some]
  constructor
  · rintro ⟨hread, hfilter⟩ name hname
    have hmem : accepts name = true ↔ accept name = some true := by
      have hboth := congrArg (name ∈ ·) hfilter
      simpa [List.mem_filter, hname] using hboth
    cases haccept : accept name with
    | none => exact absurd haccept (hread name hname)
    | some accepted =>
        rw [haccept, Option.some.injEq, ← Bool.eq_iff_iff] at hmem
        rw [hmem]
  · intro hall
    refine ⟨fun name hname => ?_, List.filter_congr fun name hname => ?_⟩
    · rw [hall name hname]
      exact Option.some_ne_none _
    · cases haccepts : accepts name <;> simp [hall name hname, haccepts]

/-! ## Each filter against the pattern language -/

/-- The names that the filter text stands for. -/
def acceptsName (text name : String) : Bool :=
  (NamePattern.ofText text.toList).accepts name.toList

/-- The shared comparison is right once the lengths rule out a read past the name. -/
theorem equalToPattern_eq
    {pattern name : List Char} {last : Char} (hlast : pattern.getLast? = some last)
    (hroom : last = '*' → pattern.dropLast.length ≤ name.length) :
    equalToPattern pattern name last = some ((NamePattern.ofText pattern).accepts name) := by
  by_cases hstar : last = '*'
  · have hne : pattern ≠ [] := by
      intro hnil
      simp [hnil] at hlast
    rw [hstar] at hlast
    simp [equalToPattern, hstar, equalFrom_of_length_le (hroom hstar), NamePattern.ofText, hne,
      hlast, NamePattern.accepts]
  · rw [NamePattern.ofText_of_last hlast hstar]
    by_cases hlength : name.length = pattern.length
    · simp [equalToPattern, hstar, hlength, equalFrom_of_length_eq hlength, NamePattern.accepts]
    · have hne : name ≠ pattern := fun heq => hlength (by rw [heq])
      simp [equalToPattern, hstar, hlength, hne, NamePattern.accepts]

/-- A name that is asked for is at least as long as the pattern without its star. -/
theorem length_le_of_accepts
    {pattern name : List Char} {last : Char} (hlast : pattern.getLast? = some last)
    (haccepts : (NamePattern.ofText pattern).accepts name = true) :
    pattern.length - (if last = '*' then 1 else 0) ≤ name.length := by
  by_cases hstar : last = '*'
  · subst hstar
    obtain ⟨stem, rfl⟩ := List.getLast?_eq_some_iff.1 hlast
    rw [NamePattern.ofText_append_star] at haccepts
    simpa using (List.isPrefixOf_iff_prefix.1 haccepts).length_le
  · rw [NamePattern.ofText_of_last hlast hstar] at haccepts
    have heq : name = pattern := by simpa [NamePattern.accepts] using haccepts
    simp [heq]

/-- A name shorter than its pattern is the stem of the pattern. -/
theorem eq_append_star_of_accepts
    {pattern name : List Char} (hne : pattern ≠ []) (hshort : name.length < pattern.length)
    (haccepts : (NamePattern.ofText pattern).accepts name = true) :
    pattern = name ++ ['*'] := by
  obtain ⟨last, hlast⟩ := Option.ne_none_iff_exists'.1 (mt List.getLast?_eq_none_iff.1 hne)
  have hlength := length_le_of_accepts hlast haccepts
  by_cases hstar : last = '*'
  · subst hstar
    obtain ⟨stem, rfl⟩ := List.getLast?_eq_some_iff.1 hlast
    rw [NamePattern.ofText_append_star] at haccepts
    have hprefix := List.isPrefixOf_iff_prefix.1 haccepts
    simp only [List.length_append, List.length_singleton] at hshort
    rw [List.IsPrefix.eq_of_length hprefix (by have := hprefix.length_le; omega)]
  · rw [if_neg hstar] at hlength
    omega

theorem acceptJoined_eq {pattern : String} (hpattern : pattern ≠ "") (name : String) :
    acceptJoined pattern name = some (acceptsName pattern name) := by
  have hne : pattern.toList ≠ [] := by simpa using hpattern
  obtain ⟨last, hlast⟩ := Option.ne_none_iff_exists'.1 (mt List.getLast?_eq_none_iff.1 hne)
  have hsize : pattern.toList.dropLast.length = pattern.toList.length - 1 :=
    List.length_dropLast
  simp only [acceptJoined, back, hlast, Option.bind_eq_bind, Option.bind_some]
  by_cases hshort : name.toList.length < pattern.toList.length - (if last = '*' then 1 else 0)
  · rw [if_pos hshort]
    cases haccepts : acceptsName pattern name with
    | false => rfl
    | true =>
        have hlength := length_le_of_accepts hlast haccepts
        omega
  · rw [if_neg hshort]
    refine equalToPattern_eq hlast fun hstar => ?_
    rw [if_pos hstar] at hshort
    omega

theorem acceptJoined_empty (name : String) : acceptJoined "" name = none := rfl

theorem acceptAttribute_eq {pattern name : String} (hpattern : pattern ≠ name ++ "*") :
    acceptAttribute pattern name = some (acceptsName pattern name) := by
  by_cases hempty : pattern.toList = []
  · simp [acceptAttribute, acceptsName, hempty, NamePattern.accepts]
  obtain ⟨last, hlast⟩ := Option.ne_none_iff_exists'.1 (mt List.getLast?_eq_none_iff.1 hempty)
  simp only [acceptAttribute, List.isEmpty_iff, if_neg hempty]
  by_cases hshort : name.toList.length < pattern.toList.length
  · rw [if_pos hshort]
    cases haccepts : acceptsName pattern name with
    | false => rfl
    | true =>
        have hstem := eq_append_star_of_accepts hempty hshort haccepts
        exact absurd (String.toList_inj.1 (by simpa using hstem)) hpattern
  · have hsize : pattern.toList.dropLast.length = pattern.toList.length - 1 :=
      List.length_dropLast
    rw [if_neg hshort]
    simp only [back, hlast, Option.bind_eq_bind, Option.bind_some]
    exact equalToPattern_eq hlast fun _ => by omega

theorem acceptAttribute_own_star (name : String) :
    acceptAttribute (name ++ "*") name = some false := by
  simp [acceptAttribute]

theorem acceptsName_own_star (name : String) : acceptsName (name ++ "*") name = true := by
  simp [acceptsName, NamePattern.accepts]

/-- On a pattern that has characters the filter of the join accepts what its reading
without positions does. -/
theorem acceptsName_eq_acceptValue {pattern : String} (hpattern : pattern ≠ "") (name : String) :
    acceptsName pattern name = acceptValue pattern name := by
  have hne : pattern.toList ≠ [] := by simpa using hpattern
  by_cases hstar : pattern.toList.getLast? = some '*'
  · simp [acceptsName, acceptValue, NamePattern.ofText, hne, hstar, NamePattern.accepts]
  · simp [acceptsName, acceptValue, NamePattern.ofText, hne, hstar, NamePattern.accepts,
      String.toList_inj]

/-- The rows that the join looks up are those of the names that are asked for. -/
theorem acceptedRows_eq {pattern : String} (hpattern : pattern ≠ "") (t : Postings) :
    acceptedRows pattern t = (t.filter fun e => acceptsName pattern e.1).flatMap fun e =>
      e.2.map fun ouid => (e.1, ouid) := by
  simp only [acceptedRows, acceptsName_eq_acceptValue hpattern]

/-- A list of the attributes of an index lists the names that are asked for. -/
theorem filteredAttributeList_eq
    {index : SearchIndex} {what pattern : String} {t : Postings}
    (htable : index.tableAt what = .ok t)
    (hpattern : ∀ name ∈ t.map Prod.fst, pattern ≠ name ++ "*") :
    filteredAttributeList index what pattern =
      .ok (some ((t.map Prod.fst).filter (acceptsName pattern))) := by
  have hwhat : what ≠ "" := by
    rintro rfl
    simp [SearchIndex.tableAt] at htable
  have hnames : namesAccepted (acceptAttribute pattern) t =
      some ((t.map Prod.fst).filter (acceptsName pattern)) :=
    namesAccepted_eq_filter_iff.2 fun name hname => acceptAttribute_eq (hpattern name hname)
  simp [filteredAttributeList, confirm, hwhat, htable, hnames, bind, Except.bind]

/-! ## The agreement law -/

/-- Both filters keep the names of the table that the filter text asks for, reading
neither a name nor the text outside its bounds. -/
def FiltersAgree (t : Postings) (pattern : String) : Prop :=
  namesAccepted (acceptAttribute pattern) t =
      some ((t.map Prod.fst).filter (acceptsName pattern)) ∧
    namesAccepted (acceptJoined pattern) t =
      some ((t.map Prod.fst).filter (acceptsName pattern))

/-- The filters agree on a table exactly when it has no name for which the pattern
is empty or that name and a star. -/
theorem nameFilters_agree_iff (t : Postings) (pattern : String) :
    FiltersAgree t pattern ↔
      ∀ name ∈ t.map Prod.fst, pattern ≠ "" ∧ pattern ≠ name ++ "*" := by
  unfold FiltersAgree
  rw [namesAccepted_eq_filter_iff, namesAccepted_eq_filter_iff]
  constructor
  · rintro ⟨hattribute, hjoined⟩ name hname
    constructor
    · rintro rfl
      have haccept := hjoined name hname
      rw [acceptJoined_empty] at haccept
      cases haccept
    · rintro rfl
      have haccept := hattribute name hname
      rw [acceptAttribute_own_star, acceptsName_own_star] at haccept
      cases haccept
  · intro hall
    exact ⟨fun name hname => acceptAttribute_eq (hall name hname).2,
      fun name hname => acceptJoined_eq (hall name hname).1 name⟩

/-- A stored name is not found under itself and a star in one filter, and the empty
pattern is read before its first character in the other. -/
theorem nameFilters_disagree :
    ¬ FiltersAgree [("run", ["5a"])] "run*" ∧
      filteredAttributeList { SearchIndex.empty with entities := [("run", ["5a"])] }
        "entities.name" "run*" = .ok (some []) ∧
      namesAccepted (acceptJoined "run*") [("run", ["5a"])] = some ["run"] ∧
      namesAccepted (acceptAttribute "") [("run", ["5a"])] = some ["run"] ∧
      namesAccepted (acceptJoined "") [("run", ["5a"])] = none := by
  refine ⟨?_, by decide, by decide, by decide, by decide⟩
  rintro ⟨hattribute, -⟩
  revert hattribute
  decide

end ArtdaqDatabase
