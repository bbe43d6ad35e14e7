import ArtdaqDatabase.SearchIndex

/-!
# Searching the index

`findDocumentIDs` collects the ids of every criterion in one vector and keeps
those that occur as often as there are criteria with a string value.  The search
is a conjunction only where that count separates the common ids from the rest.
-/

namespace ArtdaqDatabase

open OrderedTable SortedUnique InvertedIndex

/-! ## Matching one criterion -/

/-- The body that the `_match` members of the value tables share. -/
def matchTable (value : String) (t : Postings) : Except Failure (List String) := do
  confirm (value ≠ "")
  .ok (posting value t)

theorem matchTable_eq_ok {value : String} (hvalue : value ≠ "") (t : Postings) :
    matchTable value t = .ok (posting value t) := by
  simp [matchTable, confirm, hvalue, bind, Except.bind]

def matchVersion (index : SearchIndex) (version : String) : Except Failure (List String) :=
  matchTable version index.version

def matchConfiguration
    (index : SearchIndex) (configuration : String) : Except Failure (List String) :=
  matchTable configuration index.configurations

def matchEntity (index : SearchIndex) (entity : String) : Except Failure (List String) :=
  matchTable entity index.entities

def matchRun (index : SearchIndex) (run : String) : Except Failure (List String) :=
  matchTable run index.runs

def matchVersionAlias
    (index : SearchIndex) (veralias : String) : Except Failure (List String) :=
  matchTable veralias index.versionAliases

def matchObjectId (objectid : String) : Except Failure (List String) := do
  confirm (objectid ≠ "")
  .ok [objectid]

/-- The ids pushed before the first entry of `$in` that is not an id object. -/
def oidsOfEntries : List Value → List String
  | [] => []
  | entry :: rest =>
      match entry.getObject >>= stringAt "$oid" with
      | .ok oid => oid :: oidsOfEntries rest
      | .error _ => []

/-- `_matchObjectIds` on the parsed object. -/
def matchObjectIds (objectids : Object) : List String :=
  (match arrayAt "$in" objectids with
    | .ok entries => oidsOfEntries entries
    | .error _ => []) ++
  (match stringAt "$oid" objectids with
    | .ok oid => [oid]
    | .error _ => [])

/-- The matching function of a key, on a text.  A text between quotes is never
the text of an object with members, so `_matchObjectIds` finds no id in it. -/
def runMatchingFunction
    (index : SearchIndex) (key text : String) : Except Failure (List String) :=
  if key = "version" then matchVersion index text
  else if key = "configurations.name" then matchConfiguration index text
  else if key = "entities.name" then matchEntity index text
  else if key = "runs.name" then matchRun index text
  else if key = "aliases.active.name" then matchVersionAlias index text
  else if key = "$oid" then matchObjectId text
  else if key = "_id" then confirm (text ≠ "") >>= fun _ => .ok []
  else .error (.outOfRange key)

/-- The matching function of a key, on the text written for an object. -/
def runMatchingFunctionOnObject
    (index : SearchIndex) (key : String) (o : Object) : Except Failure (List String) := do
  confirm (o ≠ [])
  if key = "_id" then .ok (matchObjectIds o)
  else runMatchingFunction index key (writeJson o)

/-! ## Combining the matches -/

/-- One criterion: only a string value advances `criteria_count`. -/
def matchCriterion
    (index : SearchIndex) (found : ℕ × List String) (criterion : String × Value) :
    Except Failure (ℕ × List String) :=
  match criterion.2 with
  | .string value => do
      let matches_ ← runMatchingFunction index criterion.1 value
      .ok (found.1 + 1, found.2 ++ matches_)
  | .object value => do
      let matches_ ← runMatchingFunctionOnObject index criterion.1 value
      .ok (found.1, found.2 ++ matches_)
  | _ => .ok found

/-- What is returned for the collected ids. -/
def combineMatches (criteriaCount : ℕ) (ouids : List String) : List String :=
  if ouids.length < 2 then ouids
  else if criteriaCount = 1 then sortUnique ouids
  else
    let returnValue := if maxCount ouids < criteriaCount then ouids else []
    sortUnique (returnValue ++
      (sortUnique ouids).filter fun ouid => criteriaCount ≤ ouids.count ouid)

/-- `SearchIndex::findDocumentIDs` on the parsed search. -/
def findDocumentIDs (index : SearchIndex) (search : Object) : Except Failure (List String) :=
  if search = [] then .ok index.ouid
  else do
    let found ← search.foldlM (matchCriterion index) (0, [])
    .ok (combineMatches found.1 found.2)

/-! ## The combined list -/

theorem combineMatches_sortedLT (k : ℕ) (ouids : List String) :
    (combineMatches k ouids).SortedLT := by
  unfold combineMatches
  split
  · exact sortedLT_of_length_lt_two ‹_›
  · split
    · exact sortUnique_sortedLT _
    · exact sortUnique_sortedLT _

theorem count_lt_two_of_length {ouids : List String} (hshort : ouids.length < 2)
    (id : String) : ouids.count id < 2 :=
  lt_of_le_of_lt List.count_le_length hshort

/-- An id is kept if it was collected and the count does not exclude it.  The
count excludes nothing when it is at most one or when no id reaches it. -/
theorem mem_combineMatches {k : ℕ} {ouids : List String} {id : String} :
    id ∈ combineMatches k ouids ↔
      id ∈ ouids ∧ (k ≤ 1 ∨ (∀ x ∈ ouids, ouids.count x < k) ∨ k ≤ ouids.count id) := by
  unfold combineMatches
  by_cases hshort : ouids.length < 2
  · rw [if_pos hshort]
    constructor
    · intro hid
      refine ⟨hid, ?_⟩
      by_cases hk : k ≤ 1
      · exact Or.inl hk
      · refine Or.inr (Or.inl fun x _ => ?_)
        have := count_lt_two_of_length hshort x
        omega
    · exact fun h => h.1
  · rw [if_neg hshort]
    by_cases hone : k = 1
    · simp [hone]
    · rw [if_neg hone]
      rcases Nat.eq_zero_or_pos k with hzero | hpos
      · subst hzero
        simp
      · have hmax := maxCount_lt_iff (l := ouids) hpos
        by_cases hall : maxCount ouids < k
        · simp only [if_pos hall, mem_sortUnique, List.mem_append, List.mem_filter]
          have := hmax.1 hall
          tauto
        · have hnot : ¬ ∀ x ∈ ouids, ouids.count x < k := fun h => hall (hmax.2 h)
          have hle : ¬ k ≤ 1 := by omega
          simp [if_neg hall, hnot, hle]

/-- The lists have the same members. -/
def SameMembers (lists : List (List String)) : Prop :=
  ∀ l ∈ lists, ∀ l' ∈ lists, ∀ id, id ∈ l → id ∈ l'

/-- There is at most one list, or all lists have the same ids, or the counted
lists are two or more, some id is in every list, and an id that misses one is
collected less often than there are counted lists. -/
def CountSeparates (k : ℕ) (lists : List (List String)) : Prop :=
  lists.length ≤ 1 ∨ SameMembers lists ∨
    (2 ≤ k ∧ (∃ id, ∀ l ∈ lists, id ∈ l) ∧
      ∀ id, (∃ l ∈ lists, id ∉ l) → lists.flatten.count id < k)

/-- The combined list is the intersection exactly where the count separates the
common ids from the others. -/
theorem combineMatches_inter_iff
    {k : ℕ} {lists : List (List String)} (hne : lists ≠ []) (hk : k ≤ lists.length) :
    (∀ id, id ∈ combineMatches k lists.flatten ↔ ∀ l ∈ lists, id ∈ l) ↔
      CountSeparates k lists := by
  have hcommon : ∀ id, (∀ l ∈ lists, id ∈ l) →
      id ∈ lists.flatten ∧ k ≤ lists.flatten.count id := by
    intro id hid
    obtain ⟨l, hl⟩ := List.exists_mem_of_ne_nil lists hne
    exact ⟨List.mem_flatten.2 ⟨l, hl, hid l hl⟩,
      hk.trans (length_le_count_flatten hid)⟩
  have hback : ∀ id, (∀ l ∈ lists, id ∈ l) → id ∈ combineMatches k lists.flatten := by
    intro id hid
    obtain ⟨hmem, hcount⟩ := hcommon id hid
    exact mem_combineMatches.2 ⟨hmem, Or.inr (Or.inr hcount)⟩
  constructor
  · intro hinter
    by_cases hunion : k ≤ 1 ∨ ∀ x ∈ lists.flatten, lists.flatten.count x < k
    · refine Or.inr (Or.inl fun l hl l' hl' id hid => ?_)
      have hflat : id ∈ lists.flatten := List.mem_flatten.2 ⟨l, hl, hid⟩
      exact (hinter id).1 (mem_combineMatches.2 ⟨hflat, or_assoc.1 (Or.inl hunion)⟩) l' hl'
    · push Not at hunion
      obtain ⟨hk2, x, hx, hcount⟩ := hunion
      refine Or.inr (Or.inr ⟨hk2, ⟨x, (hinter x).1
        (mem_combineMatches.2 ⟨hx, Or.inr (Or.inr hcount)⟩)⟩, ?_⟩)
      rintro id ⟨l, hl, hid⟩
      by_contra hge
      rw [not_lt] at hge
      have hflat : id ∈ lists.flatten := List.count_pos_iff.1 (by omega)
      exact hid ((hinter id).1 (mem_combineMatches.2 ⟨hflat, Or.inr (Or.inr hge)⟩) l hl)
  · rintro (hsingle | hsame | ⟨hk2, ⟨x, hx⟩, hseparates⟩) id
    · refine ⟨fun hid l hl => ?_, hback id⟩
      obtain ⟨l', hl', hid'⟩ := List.mem_flatten.1 (mem_combineMatches.1 hid).1
      match lists, hsingle, hl, hl' with
      | [m], _, hl, hl' =>
          rw [List.mem_singleton] at hl hl'
          rw [hl, ← hl']
          exact hid'
    · refine ⟨fun hid l hl => ?_, hback id⟩
      obtain ⟨l', hl', hid'⟩ := List.mem_flatten.1 (mem_combineMatches.1 hid).1
      exact hsame l' hl' l hl id hid'
    · refine ⟨fun hid => ?_, hback id⟩
      rcases (mem_combineMatches.1 hid).2 with hle | hall | hge
      · omega
      · have := hall x (hcommon x hx).1
        have := (hcommon x hx).2
        omega
      · by_contra hmissing
        push Not at hmissing
        have := hseparates id hmissing
        omega

/-! ## The criteria of a search -/

/-- An `_id` object that lists ids: `$oid`, a `$in` list of `$oid` objects, or both. -/
structure HoldsObjectIds (o : Object) : Prop where
  present : lookup "$oid" o ≠ none ∨ lookup "$in" o ≠ none
  oid : ∀ v, lookup "$oid" o = some v → ∃ oid, v = .string oid
  oids : ∀ v, lookup "$in" o = some v → ∃ entries, v = .array entries ∧
    ∀ entry ∈ entries, ∃ p oid, entry = .object p ∧ lookup "$oid" p = some (.string oid)

/-- The criteria that a search can be built from. -/
inductive SupportedCriterion : String × Value → Prop
  | version {v : String} (hv : v ≠ "") : SupportedCriterion ("version", .string v)
  | configuration {v : String} (hv : v ≠ "") :
      SupportedCriterion ("configurations.name", .string v)
  | entity {v : String} (hv : v ≠ "") : SupportedCriterion ("entities.name", .string v)
  | versionAlias {v : String} (hv : v ≠ "") :
      SupportedCriterion ("aliases.active.name", .string v)
  | run {v : String} (hv : v ≠ "") : SupportedCriterion ("runs.name", .string v)
  | oid {v : String} (hv : v ≠ "") : SupportedCriterion ("$oid", .string v)
  | objectIds {o : Object} (ho : HoldsObjectIds o) : SupportedCriterion ("_id", .object o)

/-- The ids that an `_id` object lists. -/
def ListsObjectId (o : Object) (id : String) : Prop :=
  lookup "$oid" o = some (.string id) ∨
    ∃ entries p, lookup "$in" o = some (.array entries) ∧ .object p ∈ entries ∧
      lookup "$oid" p = some (.string id)

/-- The id belongs to the id set of the criterion. -/
def BelongsTo (index : SearchIndex) (criterion : String × Value) (id : String) : Prop :=
  (∃ v, criterion = ("version", .string v) ∧ id ∈ posting v index.version) ∨
  (∃ v, criterion = ("configurations.name", .string v) ∧
    id ∈ posting v index.configurations) ∨
  (∃ v, criterion = ("entities.name", .string v) ∧ id ∈ posting v index.entities) ∨
  (∃ v, criterion = ("aliases.active.name", .string v) ∧
    id ∈ posting v index.versionAliases) ∨
  (∃ v, criterion = ("runs.name", .string v) ∧ id ∈ posting v index.runs) ∨
  criterion = ("$oid", .string id) ∨
  (∃ o, criterion = ("_id", .object o) ∧ ListsObjectId o id)

/-- The ids that the matching function of a criterion collects. -/
def criterionIds (index : SearchIndex) (criterion : String × Value) : List String :=
  match criterion.2 with
  | .string value => (runMatchingFunction index criterion.1 value).toOption.getD []
  | .object value => (runMatchingFunctionOnObject index criterion.1 value).toOption.getD []
  | _ => []

/-- The number of criteria with a string value. -/
def stringCriteria (search : Object) : ℕ :=
  search.countP fun criterion => isString criterion.2

theorem mem_oidsOfEntries
    {entries : List Value} {id : String}
    (hentries : ∀ entry ∈ entries, ∃ p oid,
      entry = .object p ∧ lookup "$oid" p = some (.string oid)) :
    id ∈ oidsOfEntries entries ↔
      ∃ p, .object p ∈ entries ∧ lookup "$oid" p = some (.string id) := by
  induction entries with
  | nil => simp [oidsOfEntries]
  | cons entry entries ih =>
      obtain ⟨p, oid, rfl, hoid⟩ := hentries entry (by simp)
      have hget : (Value.object p).getObject >>= stringAt "$oid" = .ok oid :=
        bind_eq_ok.2 ⟨p, rfl, stringAt_eq_ok.2 hoid⟩
      have hrest := ih fun e he => hentries e (List.mem_cons_of_mem _ he)
      rw [oidsOfEntries, hget]
      simp only [List.mem_cons, hrest]
      constructor
      · rintro (rfl | ⟨q, hq, hid⟩)
        · exact ⟨p, Or.inl rfl, hoid⟩
        · exact ⟨q, Or.inr hq, hid⟩
      · rintro ⟨q, hq | hq, hid⟩
        · rw [Value.object.injEq] at hq
          rw [hq, hoid, Option.some.injEq, Value.string.injEq] at hid
          exact Or.inl hid.symm
        · exact Or.inr ⟨q, hq, hid⟩

theorem mem_matchObjectIds
    {o : Object} (ho : HoldsObjectIds o) {id : String} :
    id ∈ matchObjectIds o ↔ ListsObjectId o id := by
  have hoid : (∃ oid, stringAt "$oid" o = .ok oid ∧ oid = id) ↔
      lookup "$oid" o = some (.string id) := by
    simp
  have hin : (∃ entries, arrayAt "$in" o = .ok entries ∧ id ∈ oidsOfEntries entries) ↔
      ∃ entries p, lookup "$in" o = some (.array entries) ∧ .object p ∈ entries ∧
        lookup "$oid" p = some (.string id) := by
    constructor
    · rintro ⟨entries, hentries, hid⟩
      rw [arrayAt_eq_ok] at hentries
      obtain ⟨_, hv, hall⟩ := ho.oids _ hentries
      rw [Value.array.injEq] at hv
      subst hv
      obtain ⟨p, hp, hlookup⟩ := (mem_oidsOfEntries hall).1 hid
      exact ⟨entries, p, hentries, hp, hlookup⟩
    · rintro ⟨entries, p, hentries, hp, hlookup⟩
      obtain ⟨_, hv, hall⟩ := ho.oids _ hentries
      rw [Value.array.injEq] at hv
      subst hv
      exact ⟨entries, arrayAt_eq_ok.2 hentries, (mem_oidsOfEntries hall).2 ⟨p, hp, hlookup⟩⟩
  have hmem : id ∈ matchObjectIds o ↔
      (∃ entries, arrayAt "$in" o = .ok entries ∧ id ∈ oidsOfEntries entries) ∨
        ∃ oid, stringAt "$oid" o = .ok oid ∧ oid = id := by
    rw [matchObjectIds, List.mem_append]
    refine or_congr ?_ ?_
    · cases arrayAt "$in" o <;> simp
    · cases stringAt "$oid" o <;> simp [eq_comm]
  rw [hmem, hoid, hin, ListsObjectId, or_comm]

theorem HoldsObjectIds.ne_nil {o : Object} (ho : HoldsObjectIds o) : o ≠ [] := by
  rintro rfl
  exact ho.present.elim (fun h => h rfl) fun h => h rfl

/-- The matching function of a supported criterion succeeds. -/
theorem matchCriterion_supported
    {criterion : String × Value} (hcriterion : SupportedCriterion criterion)
    (index : SearchIndex) (found : ℕ × List String) :
    matchCriterion index found criterion =
      .ok (found.1 + (if isString criterion.2 then 1 else 0),
        found.2 ++ criterionIds index criterion) := by
  cases hcriterion with
  | version hv =>
      simp [matchCriterion, criterionIds, runMatchingFunction, matchVersion, matchTable_eq_ok hv,
        isString, bind, Except.bind, Except.toOption]
  | configuration hv =>
      simp [matchCriterion, criterionIds, runMatchingFunction, matchConfiguration, matchTable_eq_ok hv,
        isString, bind, Except.bind, Except.toOption]
  | entity hv =>
      simp [matchCriterion, criterionIds, runMatchingFunction, matchEntity, matchTable_eq_ok hv,
        isString, bind, Except.bind, Except.toOption]
  | versionAlias hv =>
      simp [matchCriterion, criterionIds, runMatchingFunction, matchVersionAlias, matchTable_eq_ok hv,
        isString, bind, Except.bind, Except.toOption]
  | run hv =>
      simp [matchCriterion, criterionIds, runMatchingFunction, matchRun, matchTable_eq_ok hv,
        isString, bind, Except.bind, Except.toOption]
  | oid hv =>
      simp [matchCriterion, criterionIds, runMatchingFunction, matchObjectId, confirm, hv,
        isString, bind, Except.bind, Except.toOption]
  | objectIds ho =>
      simp [matchCriterion, criterionIds, runMatchingFunctionOnObject, confirm, ho.ne_nil,
        isString, bind, Except.bind, Except.toOption]

theorem mem_criterionIds
    {criterion : String × Value} (hcriterion : SupportedCriterion criterion)
    {index : SearchIndex} {id : String} :
    id ∈ criterionIds index criterion ↔ BelongsTo index criterion id := by
  cases hcriterion with
  | version hv =>
      simp [criterionIds, runMatchingFunction, matchVersion, matchTable_eq_ok hv, BelongsTo,
        Except.toOption]
  | configuration hv =>
      simp [criterionIds, runMatchingFunction, matchConfiguration, matchTable_eq_ok hv,
        BelongsTo, Except.toOption]
  | entity hv =>
      simp [criterionIds, runMatchingFunction, matchEntity, matchTable_eq_ok hv, BelongsTo,
        Except.toOption]
  | versionAlias hv =>
      simp [criterionIds, runMatchingFunction, matchVersionAlias, matchTable_eq_ok hv,
        BelongsTo, Except.toOption]
  | run hv =>
      simp [criterionIds, runMatchingFunction, matchRun, matchTable_eq_ok hv, BelongsTo,
        Except.toOption]
  | oid hv =>
      simp [criterionIds, runMatchingFunction, matchObjectId, confirm, hv, BelongsTo,
        Except.toOption, bind, Except.bind, eq_comm]
  | objectIds ho =>
      simp [criterionIds, runMatchingFunctionOnObject, confirm, ho.ne_nil, BelongsTo,
        Except.toOption, bind, Except.bind, mem_matchObjectIds ho]

/-! ## The search as a conjunction -/

/-- Every criterion of the search is supported. -/
def SupportedSearch (search : Object) : Prop :=
  ∀ criterion ∈ search, SupportedCriterion criterion

theorem foldlM_matchCriterion
    {search : Object} (hsearch : SupportedSearch search)
    (index : SearchIndex) (found : ℕ × List String) :
    search.foldlM (matchCriterion index) found =
      .ok (found.1 + stringCriteria search,
        found.2 ++ (search.map (criterionIds index)).flatten) := by
  induction search generalizing found with
  | nil => simp [stringCriteria, pure, Except.pure]
  | cons criterion search ih =>
      have hhead := matchCriterion_supported (hsearch criterion (by simp)) index found
      have hrest : SupportedSearch search :=
        fun c hc => hsearch c (List.mem_cons_of_mem _ hc)
      rw [List.foldlM_cons, hhead]
      change search.foldlM (matchCriterion index) _ = _
      rw [ih hrest, stringCriteria, stringCriteria, List.countP_cons]
      simp only [List.map_cons, List.flatten_cons, List.append_assoc]
      congr 2
      omega

/-- The ids that satisfy every criterion are returned sorted and once each; an
empty search returns every id of the index once. -/
def FindsConjunction (index : SearchIndex) (search : Object) : Prop :=
  ∃ ids, findDocumentIDs index search = .ok ids ∧
    (search = [] → ids.Nodup ∧ ∀ id, id ∈ ids ↔ id ∈ index.ouid) ∧
    (search ≠ [] → ids.SortedLT ∧
      ∀ id, id ∈ ids ↔ ∀ criterion ∈ search, BelongsTo index criterion id)

theorem findDocumentIDs_supported
    {search : Object} (hsearch : SupportedSearch search) (hne : search ≠ [])
    (index : SearchIndex) :
    findDocumentIDs index search =
      .ok (combineMatches (stringCriteria search)
        (search.map (criterionIds index)).flatten) := by
  rw [findDocumentIDs, if_neg hne, foldlM_matchCriterion hsearch]
  simp [bind, Except.bind]

theorem findDocumentIDs_conjunction_iff
    {index : SearchIndex} {search : Object} (hsearch : SupportedSearch search) :
    FindsConjunction index search ↔
      (search = [] → index.ouid.Nodup) ∧
        (search ≠ [] →
          CountSeparates (stringCriteria search) (search.map (criterionIds index))) := by
  rcases eq_or_ne search [] with rfl | hne
  · simp [FindsConjunction, findDocumentIDs]
  · have hlists : search.map (criterionIds index) ≠ [] := by simpa using hne
    have hcount : stringCriteria search ≤ (search.map (criterionIds index)).length := by
      rw [List.length_map]
      exact List.countP_le_length
    have hmem : ∀ id, (∀ l ∈ search.map (criterionIds index), id ∈ l) ↔
        ∀ criterion ∈ search, BelongsTo index criterion id := by
      intro id
      simp only [List.mem_map, forall_exists_index, and_imp, forall_apply_eq_imp_iff₂]
      exact forall₂_congr fun c hc => mem_criterionIds (hsearch c hc)
    have hinter := combineMatches_inter_iff hlists hcount
    simp only [hmem] at hinter
    simp only [FindsConjunction, findDocumentIDs_supported hsearch hne, hne, ← hinter,
      IsEmpty.forall_iff, true_and, ne_eq, not_false_eq_true, forall_true_left]
    constructor
    · rintro ⟨ids, hids, -, hconj⟩
      rw [Except.ok.injEq] at hids
      rw [hids]
      exact hconj
    · intro hconj
      exact ⟨_, rfl, combineMatches_sortedLT _ _, hconj⟩

/-- One document with version `v1` and another one with entity `e1`. -/
def disjointIndex : SearchIndex :=
  { SearchIndex.empty with
    ouid := ["a", "b"]
    version := [("v1", ["a"])]
    entities := [("e1", ["b"])] }

def disjointSearch : Object :=
  [("version", .string "v1"), ("entities.name", .string "e1")]

theorem disjointSearch_supported : SupportedSearch disjointSearch := by
  intro criterion hcriterion
  simp only [disjointSearch, List.mem_cons, List.not_mem_nil, or_false] at hcriterion
  rcases hcriterion with rfl | rfl
  · exact SupportedCriterion.version (by decide)
  · exact SupportedCriterion.entity (by decide)

theorem findDocumentIDs_conjunction_iff_disjoint :
    SupportedSearch disjointSearch ∧
      (FindsConjunction disjointIndex disjointSearch ↔
        (disjointSearch = [] → disjointIndex.ouid.Nodup) ∧
          (disjointSearch ≠ [] → CountSeparates (stringCriteria disjointSearch)
            (disjointSearch.map (criterionIds disjointIndex)))) :=
  ⟨disjointSearch_supported, findDocumentIDs_conjunction_iff disjointSearch_supported⟩

/-- No id has both the version and the entity, and both ids are returned. -/
theorem findDocumentIDs_returns_union :
    SupportedSearch disjointSearch ∧
      findDocumentIDs disjointIndex disjointSearch = .ok ["a", "b"] ∧
      ¬ FindsConjunction disjointIndex disjointSearch := by
  have hfound : findDocumentIDs disjointIndex disjointSearch = .ok ["a", "b"] := by
    decide
  refine ⟨disjointSearch_supported, hfound, ?_⟩
  rintro ⟨ids, hids, -, hconj⟩
  rw [hfound, Except.ok.injEq] at hids
  subst hids
  have ha := (hconj (by decide)).2 "a"
  have hentity := ha.1 (by decide) ("entities.name", .string "e1") (by decide)
  simp [BelongsTo, disjointIndex, posting, lookup] at hentity

end ArtdaqDatabase
