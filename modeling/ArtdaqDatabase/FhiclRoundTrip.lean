import ArtdaqDatabase.FhiclExport

/-!
# FHiCL to JSON and back

A tree is split into data and metadata and joined again.  Which trees come back as
they were is read off the tree itself, one condition for a scalar of a table and
one for a scalar of a sequence.
-/

namespace ArtdaqDatabase

open OrderedTable

/-! ## The same tree -/

mutual

/-- The value that is exported has the contents of the tree. -/
def valueMatches : ExtendedValue → FclValue → Prop
  | .scalar _ rawValue _, .string text _ => text = rawValue
  | .sequence values _, .sequence elements _ => elementsMatch values elements
  | .table members _, .table atoms _ => membersMatch members atoms
  | _, _ => False

/-- An element has no key that could carry a protection. -/
def elementsMatch : List ExtendedValue → List FclValue → Prop
  | [], [] => True
  | v :: values, w :: elements =>
      v.info.protection = .none ∧ valueMatches v w ∧ elementsMatch values elements
  | _, _ => False

def membersMatch : List (String × ExtendedValue) → List Atom → Prop
  | [], [] => True
  | (key, v) :: members, (fclKey, w) :: atoms =>
      fclKey.key = keyText key v.info.protection ∧ valueMatches v w ∧ membersMatch members atoms
  | _, _ => False

end

def atomMatches (key : String) (v : ExtendedValue) (atom : Atom) : Prop :=
  atom.1.key = keyText key v.info.protection ∧ valueMatches v atom.2

/-! ## Which trees survive -/

/-- A quotation mark alone is taken for a pair of them. -/
def isLoneQuote (rawValue : String) : Bool :=
  rawValue.toList = ['"'] || rawValue.toList = ['\'']

/-- The text of a scalar survives in a table. -/
def tableTextSurvives (tag : ScalarTag) (rawValue : String) : Bool :=
  match tag with
  | .unknown => false
  | .string => !isLoneQuote rawValue
  | _ => true

/-- The text of a scalar survives in a sequence, where the marks of every kind but
a number are guessed. -/
def sequenceTextSurvives (tag : ScalarTag) (rawValue : String) : Bool :=
  match tag with
  | .string => !isLoneQuote rawValue
  | .number => '\\' ∉ rawValue.toList
  | _ => !needQuotes rawValue

mutual

def survives (opts : ExtraOpts) (inSequence : Bool) : ExtendedValue → Bool
  | .scalar tag rawValue _ =>
      if inSequence then sequenceTextSurvives tag rawValue else tableTextSurvives tag rawValue
  | .sequence values _ => elementsSurvive opts values
  | .table members _ => membersSurvive opts members

def elementsSurvive (opts : ExtraOpts) : List ExtendedValue → Bool
  | [] => true
  | v :: values =>
      v.info.protection = .none && survives opts true v && elementsSurvive opts values

/-- A member is read, and its name is not the beginning of an include directive. -/
def membersSurvive (opts : ExtraOpts) : List (String × ExtendedValue) → Bool
  | [] => true
  | (key, v) :: members =>
      opts.selects v && !isIncludeKey key && survives opts false v && membersSurvive opts members

end

/-! ## Scalars -/

theorem quote_dequote_iff (rawValue : String) :
    (quotationType rawValue).quote (dequote rawValue) = rawValue ↔
      isLoneQuote rawValue = false := by
  rw [quote_dequote]
  simp [isLoneQuote]

theorem tableText_iff {tag : ScalarTag} (htag : tag ≠ .unknown) (rawValue : String) :
    tableText tag rawValue = rawValue ↔ tableTextSurvives tag rawValue = true := by
  unfold tableText tableTextSurvives
  cases tag with
  | unknown => exact absurd rfl htag
  | string => simp [quote_dequote_iff]
  | _ => simp

theorem sequenceText_iff (tag : ScalarTag) (rawValue : String) :
    sequenceText tag rawValue = rawValue ↔ sequenceTextSurvives tag rawValue = true := by
  unfold sequenceText sequenceTextSurvives
  cases tag with
  | string => simp [quote_dequote_iff]
  | number =>
      rw [← String.toList_inj, fromJsonString, String.toList_ofList, restoreText_eq_self_iff]
      simp
  | _ => simp [guessQuotes_restored]

/-! ## Joining what was split -/

section

variable (comments : Comments) (opts : ExtraOpts)

def joined (key : String) (v : ExtendedValue) : Except Failure Atom :=
  json2fcldbAtom key (.object (metadataOf comments opts key v)) (dataOf opts v)

/-- The value of an element, whose metadata go under its position. -/
def joinedElement (idx : ℕ) (v : ExtendedValue) : Except Failure FclValue :=
  json2fcldbValue (dataOf opts v) (.object (metadataOf comments opts (toString idx) v))
    (joined comments opts (toString idx) v)

variable {comments opts}

theorem isIncludeKey_toString (idx : ℕ) : isIncludeKey (toString idx) = false := by
  have ⟨d, tail, hhead, hdigits⟩ := digits_toString_nat idx
  have hd : d.isDigit = true := hdigits d (by rw [hhead]; exact List.mem_cons_self)
  have hne : ('f' == d) = false := by
    rw [beq_eq_false_iff_ne]
    rintro rfl
    exact absurd hd (by decide)
  have hname : includeName.toList = 'f' :: "hicl_pound_include".toList := by decide
  rw [isIncludeKey, hhead, hname, List.isPrefixOf_cons_cons, hne, Bool.false_and]

theorem elementResults_of_children
    {children : Object} (values : List ExtendedValue) (idx : ℕ)
    (hchildren : ∀ entry ∈ elementsMetadata comments opts idx values,
      lookup entry.1 children = some entry.2) :
    elementResults children idx (elementsData opts values) =
      values.mapIdx fun i v => joinedElement comments opts (idx + i) v := by
  induction values generalizing idx with
  | nil => rfl
  | cons v values ih =>
      have hhead := hchildren _ List.mem_cons_self
      have htail := ih (idx + 1) fun entry hentry => hchildren entry (List.mem_cons_of_mem _ hentry)
      rw [elementsData, elementResults, htail, List.mapIdx_cons, valueAt_eq_ok.2 hhead]
      simp only [Nat.add_zero, Nat.add_assoc, Nat.add_comm 1]
      rfl

theorem memberResults_of_children
    {children : Object} (members : List (String × ExtendedValue))
    (hchildren : ∀ entry ∈ membersMetadata comments opts members,
      lookup entry.1 children = some entry.2) :
    memberResults children (membersData opts members) =
      (members.filter fun member => opts.selects member.2).map
        fun member => joined comments opts member.1 member.2 := by
  induction members with
  | nil => rfl
  | cons member members ih =>
      obtain ⟨key, v⟩ := member
      by_cases hselects : opts.selects v
      · have hmetadata : membersMetadata comments opts ((key, v) :: members) =
            (key, .object (metadataOf comments opts key v)) ::
              membersMetadata comments opts members := by
          simp [membersMetadata, hselects]
        rw [hmetadata] at hchildren
        have hhead := hchildren _ List.mem_cons_self
        have htail := ih fun entry hentry => hchildren entry (List.mem_cons_of_mem _ hentry)
        rw [membersData, if_pos hselects, memberResults, htail, valueAt_eq_ok.2 hhead,
          List.filter_cons, if_pos hselects, List.map_cons]
        rfl
      · rw [membersMetadata, if_neg hselects] at hchildren
        rw [membersData, if_neg hselects, ih hchildren, List.filter_cons, if_neg hselects]

variable (comments opts)

/-- The elements are converted one by one, each with its own metadata. -/
theorem joined_sequence
    {key : String} (hkey : isIncludeKey key = false) (values : List ExtendedValue)
    (info : ValueInfo) :
    ∃ comment annotation, joined comments opts key (.sequence values info) =
      (fun pushed => (⟨keyText key info.protection, comment⟩, .sequence pushed annotation)) <$>
        fillWith (values.mapIdx fun i v => joinedElement comments opts i v) := by
  have hnode := isNode_metadataOf comments opts key (.sequence values info)
  have ⟨comment, annotation, hatom⟩ := json2fcldbAtom_sequence hkey hnode
    (lookup_set_self "children" _ _) (elementsData opts values)
  refine ⟨comment, annotation, ?_⟩
  have hresults := elementResults_of_children values 0
    fun entry hentry => lookup_of_mem (nodup_elementsMetadata comments opts 0 values) hentry
  simp only [Nat.zero_add] at hresults
  rw [hresults] at hatom
  exact hatom

theorem joined_table
    {key : String} (hkey : isIncludeKey key = false) (members : List (String × ExtendedValue))
    (info : ValueInfo) (hnodup : (members.map Prod.fst).Nodup) :
    ∃ comment, joined comments opts key (.table members info) =
      (fun pushed => (⟨keyText key info.protection, comment⟩, .table pushed none)) <$>
        fillWith ((members.filter fun member => opts.selects member.2).map
          fun member => joined comments opts member.1 member.2) := by
  have hnode := isNode_metadataOf comments opts key (.table members info)
  have ⟨comment, hatom⟩ := json2fcldbAtom_table hkey hnode
    (lookup_set_self "children" _ _) (membersData opts members)
  refine ⟨comment, ?_⟩
  have hkeys := hnodup.sublist (keys_membersMetadata comments opts members)
  have hresults := memberResults_of_children members
    fun entry hentry => lookup_of_mem hkeys hentry
  rw [hresults] at hatom
  exact hatom

theorem map_eq_ok {ε α β : Type} {f : α → β} {x : Except ε α} {b : β} :
    f <$> x = .ok b ↔ ∃ a, x = .ok a ∧ f a = b := by
  cases x <;> simp [Functor.map, Except.map]

/-! ## Exactly the surviving trees -/

theorem joined_scalar
    {key : String} (hkey : isIncludeKey key = false) {tag : ScalarTag} (htag : tag ≠ .unknown)
    (rawValue : String) (info : ValueInfo) :
    ∃ comment annotation, joined comments opts key (.scalar tag rawValue info) =
      .ok (⟨keyText key info.protection, comment⟩,
        .string (tableText tag rawValue) annotation) :=
  json2fcldbAtom_scalar hkey (isNode_metadataOf comments opts key (.scalar tag rawValue info)) htag

theorem joined_unknown
    {key : String} (hkey : isIncludeKey key = false) (rawValue : String) (info : ValueInfo) :
    ∃ message, joined comments opts key (.scalar .unknown rawValue info) =
      .error (.fhiclError message) :=
  json2fcldbAtom_unknown hkey
    (isNode_metadataOf comments opts key (.scalar .unknown rawValue info)) rawValue

theorem joined_scalar_survives
    {key : String} (hkey : isIncludeKey key = false) (tag : ScalarTag) (rawValue : String)
    (info : ValueInfo) :
    (∃ atom, joined comments opts key (.scalar tag rawValue info) = .ok atom ∧
        atomMatches key (.scalar tag rawValue info) atom) ↔
      tableTextSurvives tag rawValue = true := by
  by_cases htag : tag = .unknown
  · subst htag
    have ⟨failure, hfailure⟩ := joined_unknown comments opts hkey rawValue
      info
    simp [hfailure, tableTextSurvives]
  · have ⟨comment, annotation, hatom⟩ := joined_scalar comments opts hkey
      htag rawValue info
    rw [← tableText_iff htag, hatom]
    constructor
    · rintro ⟨atom, hok, hmatches⟩
      rw [Except.ok.injEq] at hok
      subst hok
      exact hmatches.2
    · exact fun htext => ⟨_, rfl, rfl, htext⟩

theorem joinedElement_survives
    (idx : ℕ) (v : ExtendedValue) (hv : v.Legal)
    (hjoined : (∃ atom, joined comments opts (toString idx) v = .ok atom ∧
      atomMatches (toString idx) v atom) ↔ survives opts false v = true) :
    (∃ w, joinedElement comments opts idx v = .ok w ∧ valueMatches v w) ↔
      survives opts true v = true := by
  have hkey := isIncludeKey_toString idx
  cases v with
  | scalar tag rawValue info =>
      have hnode := isNode_metadataOf comments opts (toString idx) (.scalar tag rawValue info)
      have helement : joinedElement comments opts idx (.scalar tag rawValue info) =
          .ok (.string (sequenceText tag rawValue) none) := json2fcldbValue_scalar hnode _
      have hsurvives : survives opts true (.scalar tag rawValue info) =
          sequenceTextSurvives tag rawValue := rfl
      rw [helement, hsurvives, ← sequenceText_iff]
      constructor
      · rintro ⟨w, hok, hmatches⟩
        rw [Except.ok.injEq] at hok
        subst hok
        exact hmatches
      · exact fun htext => ⟨_, rfl, htext⟩
  | sequence values info =>
      have ⟨comment, annotation, hatom⟩ := joined_sequence comments opts
        hkey values info
      have helement : joinedElement comments opts idx (.sequence values info) =
          Prod.snd <$> joined comments opts (toString idx) (.sequence values info) := rfl
      have hsurvives : survives opts true (.sequence values info) =
          survives opts false (.sequence values info) := rfl
      rw [hsurvives, ← hjoined, helement, hatom]
      simp only [map_eq_ok, atomMatches]
      constructor
      · rintro ⟨w, ⟨atom, ⟨pushed, hpushed, rfl⟩, rfl⟩, hmatches⟩
        exact ⟨_, ⟨pushed, hpushed, rfl⟩, rfl, hmatches⟩
      · rintro ⟨atom, ⟨pushed, hpushed, rfl⟩, -, hmatches⟩
        exact ⟨_, ⟨_, ⟨pushed, hpushed, rfl⟩, rfl⟩, hmatches⟩
  | table members info =>
      have ⟨comment, hatom⟩ := joined_table comments opts hkey members
        info hv.1
      have helement : joinedElement comments opts idx (.table members info) =
          Prod.snd <$> joined comments opts (toString idx) (.table members info) := rfl
      have hsurvives : survives opts true (.table members info) =
          survives opts false (.table members info) := rfl
      rw [hsurvives, ← hjoined, helement, hatom]
      simp only [map_eq_ok, atomMatches]
      constructor
      · rintro ⟨w, ⟨atom, ⟨pushed, hpushed, rfl⟩, rfl⟩, hmatches⟩
        exact ⟨_, ⟨pushed, hpushed, rfl⟩, rfl, hmatches⟩
      · rintro ⟨atom, ⟨pushed, hpushed, rfl⟩, -, hmatches⟩
        exact ⟨_, ⟨_, ⟨pushed, hpushed, rfl⟩, rfl⟩, hmatches⟩

variable {comments opts}

theorem length_fillWith {α : Type} (results : List (Except Failure α)) {pushed : List α}
    (h : fillWith results = .ok pushed) : pushed.length ≤ results.length := by
  induction results generalizing pushed with
  | nil =>
      cases h
      simp
  | cons result results ih =>
      cases pushed with
      | nil => simp
      | cons a pushed =>
          have := ih (fillWith_cons_eq_ok.1 h).2
          simpa using this

theorem length_membersMatch (members : List (String × ExtendedValue)) (atoms : List Atom)
    (h : membersMatch members atoms) : members.length = atoms.length := by
  induction members generalizing atoms with
  | nil =>
      cases atoms with
      | nil => rfl
      | cons atom atoms => exact h.elim
  | cons member members ih =>
      cases atoms with
      | nil => exact h.elim
      | cons atom atoms => simpa using ih atoms h.2.2

theorem selects_of_membersSurvive
    (members : List (String × ExtendedValue)) (h : membersSurvive opts members = true) :
    ∀ member ∈ members, opts.selects member.2 = true := by
  induction members with
  | nil => simp
  | cons member members ih =>
      obtain ⟨key, v⟩ := member
      simp only [membersSurvive, Bool.and_eq_true] at h
      intro member hmember
      rcases List.mem_cons.1 hmember with rfl | hmember
      · exact h.1.1.1
      · exact ih h.2 member hmember

/-- A table that loses a member does not come back. -/
theorem not_membersMatch_of_dropped
    {members : List (String × ExtendedValue)}
    (hdropped : ¬∀ member ∈ members, opts.selects member.2 = true) {pushed : List Atom}
    (hpushed : fillWith ((members.filter fun member => opts.selects member.2).map
      fun member => joined comments opts member.1 member.2) = .ok pushed) :
    ¬membersMatch members pushed := by
  intro hmatches
  have hlength := length_membersMatch members pushed hmatches
  have hle := length_fillWith _ hpushed
  rw [List.length_map, ← hlength] at hle
  have heq := List.filter_sublist.eq_of_length_le hle
  exact hdropped (List.filter_eq_self.1 heq)

/-- A directive is exported under a name of its own. -/
theorem not_joined_include
    {key : String} (hkey : isIncludeKey key = true) (v : ExtendedValue) (protection : Protection)
    {atom : Atom} (h : joined comments opts key v = .ok atom) :
    atom.1.key ≠ keyText key protection := by
  have hinclude := json2fcldbAtom_include (isNode_metadataOf comments opts key v) hkey
    (dataOf opts v)
  have hatom : includeAtom (dataOf opts v) = .ok atom := hinclude.symm.trans h
  unfold includeAtom at hatom
  rw [bind_eq_ok] at hatom
  obtain ⟨text, -, hatom⟩ := hatom
  cases hatom
  have hprefix : includeName.toList <+: key.toList := List.isPrefixOf_iff_prefix.1 hkey
  obtain ⟨tail, htail⟩ := hprefix
  have hhead : (keyText key protection).toList.head? = some 'f' := by
    have hname : includeName.toList = 'f' :: "hicl_pound_include".toList := by decide
    unfold keyText
    split <;> simp [← htail, hname]
  intro h
  rw [← h] at hhead
  have hne : ("#include" : String).toList.head? ≠ some 'f' := by decide
  exact hne hhead

mutual

theorem joined_survives
    {key : String} (hkey : isIncludeKey key = false) (v : ExtendedValue) (hv : v.Legal) :
    (∃ atom, joined comments opts key v = .ok atom ∧ atomMatches key v atom) ↔
      survives opts false v = true := by
  cases v with
  | scalar tag rawValue info => exact joined_scalar_survives comments opts hkey tag rawValue info
  | sequence values info =>
      have ⟨comment, annotation, hatom⟩ := joined_sequence comments opts
        hkey values info
      have helements := elements_survive values 0 hv
      simp only [Nat.zero_add] at helements
      have hsurvives : survives opts false (.sequence values info) =
          elementsSurvive opts values := rfl
      rw [hatom, hsurvives, ← helements]
      simp only [map_eq_ok]
      constructor
      · rintro ⟨atom, ⟨pushed, hpushed, rfl⟩, -, hmatches⟩
        exact ⟨pushed, hpushed, hmatches⟩
      · rintro ⟨pushed, hpushed, hmatches⟩
        exact ⟨_, ⟨pushed, hpushed, rfl⟩, rfl, hmatches⟩
  | table members info =>
      have ⟨comment, hatom⟩ := joined_table comments opts hkey members
        info hv.1
      have hsurvives : survives opts false (.table members info) =
          membersSurvive opts members := rfl
      rw [hatom, hsurvives]
      simp only [map_eq_ok]
      by_cases hall : ∀ member ∈ members, opts.selects member.2 = true
      · have hmembers := members_survive members hv.2 hall
        rw [List.filter_eq_self.2 hall, ← hmembers]
        constructor
        · rintro ⟨atom, ⟨pushed, hpushed, rfl⟩, -, hmatches⟩
          exact ⟨pushed, hpushed, hmatches⟩
        · rintro ⟨pushed, hpushed, hmatches⟩
          exact ⟨_, ⟨pushed, hpushed, rfl⟩, rfl, hmatches⟩
      · constructor
        · rintro ⟨atom, ⟨pushed, hpushed, rfl⟩, -, hmatches⟩
          exact absurd hmatches (not_membersMatch_of_dropped hall hpushed)
        · exact fun h => absurd (selects_of_membersSurvive members h) hall

theorem elements_survive
    (values : List ExtendedValue) (idx : ℕ) (hvalues : valuesLegal values) :
    (∃ pushed, fillWith (values.mapIdx fun i v => joinedElement comments opts (idx + i) v) =
        .ok pushed ∧ elementsMatch values pushed) ↔
      elementsSurvive opts values = true := by
  cases values with
  | nil => exact ⟨fun _ => rfl, fun _ => ⟨[], rfl, trivial⟩⟩
  | cons v values =>
      have hhead := joinedElement_survives comments opts idx v hvalues.1
        (joined_survives (isIncludeKey_toString idx) v hvalues.1)
      have htail := elements_survive values (idx + 1) hvalues.2
      have hshift : (fun i v => joinedElement comments opts (idx + (i + 1)) v) =
          fun i v => joinedElement comments opts (idx + 1 + i) v := by
        funext i v
        rw [Nat.add_assoc, Nat.add_comm 1]
      have hsurvives : elementsSurvive opts (v :: values) =
          (v.info.protection = .none && survives opts true v && elementsSurvive opts values) := rfl
      rw [hsurvives, Bool.and_eq_true, Bool.and_eq_true, decide_eq_true_iff, ← hhead, ← htail,
        List.mapIdx_cons, hshift, Nat.add_zero]
      constructor
      · rintro ⟨pushed, hpushed, hmatches⟩
        cases pushed with
        | nil => exact hmatches.elim
        | cons w pushed =>
            have ⟨hfirst, hrest⟩ := fillWith_cons_eq_ok.1 hpushed
            exact ⟨⟨hmatches.1, w, hfirst, hmatches.2.1⟩, pushed, hrest, hmatches.2.2⟩
      · rintro ⟨⟨hprotection, w, hfirst, hw⟩, pushed, hrest, hmatches⟩
        exact ⟨w :: pushed, fillWith_cons_eq_ok.2 ⟨hfirst, hrest⟩, hprotection, hw, hmatches⟩

theorem members_survive
    (members : List (String × ExtendedValue)) (hmembers : membersLegal members)
    (hall : ∀ member ∈ members, opts.selects member.2 = true) :
    (∃ pushed, fillWith (members.map fun member => joined comments opts member.1 member.2) =
        .ok pushed ∧ membersMatch members pushed) ↔
      membersSurvive opts members = true := by
  cases members with
  | nil => exact ⟨fun _ => rfl, fun _ => ⟨[], rfl, trivial⟩⟩
  | cons member members =>
      obtain ⟨key, v⟩ := member
      obtain ⟨-, hv, hrest⟩ := hmembers
      have hselects : opts.selects v = true := hall _ List.mem_cons_self
      have htail := members_survive members hrest fun m hm => hall m (List.mem_cons_of_mem _ hm)
      have hsurvives : membersSurvive opts ((key, v) :: members) =
          (opts.selects v && !isIncludeKey key && survives opts false v &&
            membersSurvive opts members) := rfl
      rw [hsurvives, List.map_cons, Bool.and_eq_true, Bool.and_eq_true, Bool.and_eq_true,
        Bool.not_eq_true', ← htail]
      constructor
      · rintro ⟨pushed, hpushed, hmatches⟩
        cases pushed with
        | nil => exact hmatches.elim
        | cons atom pushed =>
            have ⟨hfirst, hpushed⟩ := fillWith_cons_eq_ok.1 hpushed
            have hkey : isIncludeKey key = false := by
              rw [← Bool.not_eq_true]
              exact fun hkey => not_joined_include hkey v _ hfirst hmatches.1
            have hhead := joined_survives hkey v hv
            exact ⟨⟨⟨hselects, hkey⟩, hhead.1 ⟨atom, hfirst, hmatches.1, hmatches.2.1⟩⟩,
              pushed, hpushed, hmatches.2.2⟩
      · rintro ⟨⟨⟨-, hkey⟩, hv'⟩, pushed, hpushed, hmatches⟩
        have hhead := joined_survives hkey v hv
        obtain ⟨atom, hfirst, hatom⟩ := hhead.2 hv'
        exact ⟨atom :: pushed, fillWith_cons_eq_ok.2 ⟨hfirst, hpushed⟩, hatom.1, hatom.2,
          hmatches⟩

end

end

/-- A tree comes back as it was exactly when its texts survive where they stand, its
sections are the ones that are read, and no name is that of an include directive. -/
theorem json2fcldb_fcl2jsondb
    {comments : Comments} (hcomments : comments ≠ []) (opts : ExtraOpts) {key : String}
    (hkey : key ≠ "") (v : ExtendedValue) (hv : v.Legal) :
    (∃ pair atom, fcl2jsondb comments opts key v = .ok pair ∧
        json2fcldbAtom pair.1.1 pair.2.2 pair.1.2 = .ok atom ∧ atomMatches key v atom) ↔
      isIncludeKey key = false ∧ survives opts false v = true := by
  have hsplit := fcl2jsondb_legal opts hcomments hkey v hv
  constructor
  · rintro ⟨pair, atom, hpair, hatom, hmatches⟩
    rw [hsplit, Except.ok.injEq] at hpair
    subst hpair
    have hinclude : isIncludeKey key = false := by
      rw [← Bool.not_eq_true]
      intro hinclude
      have hjoined : joined comments opts key v = .ok atom := hatom
      exact not_joined_include hinclude v _ hjoined hmatches.1
    exact ⟨hinclude, (joined_survives hinclude v hv).1 ⟨atom, hatom, hmatches⟩⟩
  · rintro ⟨hinclude, hsurvives⟩
    have hjoined : ∃ atom, joined comments opts key v = .ok atom ∧ atomMatches key v atom :=
      (joined_survives hinclude v hv).2 hsurvives
    obtain ⟨atom, hatom, hmatches⟩ := hjoined
    exact ⟨_, atom, hsplit, hatom, hmatches⟩

def exampleInfo : ValueInfo :=
  ⟨false, .none, Nat.succPNat 1⟩

/-- `c: [(1,2)]`. -/
def complexSequence : ExtendedValue :=
  .sequence [.scalar .complex "(1,2)" exampleInfo] exampleInfo

/-- A table with strings of every quotation, a number, and a protected sequence. -/
def mixedTable : ExtendedValue :=
  .table
    [("plain", .scalar .string "on" exampleInfo),
      ("marked", .scalar .string "\"a\\\"b\"" exampleInfo),
      ("values", .sequence [.scalar .number "1e-3" exampleInfo, .scalar .string "'x y'" exampleInfo]
        ⟨false, .protectError, 4⟩)] exampleInfo

theorem json2fcldb_fcl2jsondb_mixedTable :
    ∃ pair atom, fcl2jsondb [(1, "# table")] {} "t" mixedTable = .ok pair ∧
      json2fcldbAtom pair.1.1 pair.2.2 pair.1.2 = .ok atom ∧ atomMatches "t" mixedTable atom := by
  have hlegal : mixedTable.Legal := by
    simp [mixedTable, ExtendedValue.Legal, membersLegal, valuesLegal]
  refine (json2fcldb_fcl2jsondb (by decide) _ (by decide) mixedTable hlegal).2 ⟨?_, ?_⟩
  · decide +kernel
  · decide +kernel

/-- A complex number of a sequence comes back as a string. -/
theorem json2fcldb_complexSequence :
    complexSequence.Legal ∧
      ∃ pair atom annotation, fcl2jsondb [(1, "# table")] {} "c" complexSequence = .ok pair ∧
        json2fcldbAtom pair.1.1 pair.2.2 pair.1.2 = .ok atom ∧
        atom.2 = .sequence [.string "\"(1,2)\"" none] annotation ∧
        ¬atomMatches "c" complexSequence atom := by
  refine ⟨⟨trivial, trivial⟩, _, _, _, rfl, rfl, rfl, ?_⟩
  rintro ⟨-, -, hvalue, -⟩
  have htext : ("\"(1,2)\"" : String) = "(1,2)" := hvalue
  exact absurd htext (by decide)

end ArtdaqDatabase
