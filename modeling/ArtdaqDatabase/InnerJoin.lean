import ArtdaqDatabase.IndexCoherence
import Mathlib.Data.Prod.Lex

/-!
# Joining two tables of the index

`_indexed_filtered_innerjoin_over_ouid` turns the left table into a map from ids
to values and looks up in it every id of the accepted right values.  The map has
one value for each id, so the join is the relational one only where the last left
value of some id stands for each of the pairs.
-/

namespace ArtdaqDatabase

open OrderedTable SortedUnique InvertedIndex

/-- `_index.at` and `boost::get<object_t>` on it. -/
def SearchIndex.tableAt (index : SearchIndex) (what : String) : Except Failure Postings :=
  if what = "version" then .ok index.version
  else if what = "configurations.name" then .ok index.configurations
  else if what = "entities.name" then .ok index.entities
  else if what = "aliases.active.name" then .ok index.versionAliases
  else if what = "runs.name" then .ok index.runs
  else if what = "configurations.assigned" then .ok index.configurationsAssigned
  else if what = "ouid" then .error .badGet
  else .error (.outOfRange what)

def buildOuidMap (index : SearchIndex) (what : String) :
    Except Failure (Table String String) := do
  confirm (what ≠ "")
  let lookupTable ← index.tableAt what
  .ok (invert lookupTable)

/-- A pattern accepts itself, and with a last star what begins with the rest. -/
def acceptValue (rightBeginsWith value : String) : Bool :=
  if rightBeginsWith.toList.getLast? = some '*' then
    rightBeginsWith.toList.dropLast.isPrefixOf value.toList
  else value = rightBeginsWith

/-- The ids under the accepted values, each with its value. -/
def acceptedRows (rightBeginsWith : String) (rightTable : Postings) : List (String × String) :=
  (rightTable.filter fun e => acceptValue rightBeginsWith e.1).flatMap fun e =>
    e.2.map fun ouid => (e.1, ouid)

/-- One lookup with `std::map::at`. -/
def joinRow (ouidMap : Table String String) (row : String × String) :
    Except Failure (String ×ₗ String) :=
  match lookup row.2 ouidMap with
  | some value => .ok (toLex (row.1, value))
  | none => .error (.outOfRange row.2)

/-- `SearchIndex::_indexed_filtered_innerjoin_over_ouid`. -/
def indexedFilteredInnerjoinOverOuid
    (index : SearchIndex) (left right rightBeginsWith : String) :
    Except Failure (List (String ×ₗ String)) := do
  let ouidMap ← buildOuidMap index left
  let rightTable ← index.tableAt right
  let pairs ← (acceptedRows rightBeginsWith rightTable).mapM (joinRow ouidMap)
  if pairs.length < 2 then .ok pairs
  else .ok (sortUnique pairs)

/-! ## The joined pairs -/

theorem mem_acceptedRows {rightBeginsWith : String} {t : Postings} {r id : String} :
    (r, id) ∈ acceptedRows rightBeginsWith t ↔
      acceptValue rightBeginsWith r ∧ Listed t r id := by
  simp only [acceptedRows, List.mem_flatMap, List.mem_filter, List.mem_map, Prod.mk.injEq]
  constructor
  · rintro ⟨⟨r, ids⟩, ⟨hmem, haccept⟩, id, hid, rfl, rfl⟩
    exact ⟨haccept, ids, hmem, hid⟩
  · rintro ⟨haccept, ids, hmem, hid⟩
    exact ⟨(r, ids), ⟨hmem, haccept⟩, id, hid, rfl, rfl⟩

theorem joinRow_eq_ok {t : Postings} {r id : String} {pair : String ×ₗ String} :
    joinRow (invert t) (r, id) = .ok pair ↔ ∃ l, ListedLast t l id ∧ pair = toLex (r, l) := by
  unfold joinRow
  simp only [← lookup_invert_eq_some]
  cases lookup id (invert t) with
  | none => simp
  | some l => simp [eq_comm]

theorem mapM_eq_ok_mem
    {α β : Type} {f : α → Except Failure β} {xs : List α} {ys : List β}
    (hrun : xs.mapM f = .ok ys) (y : β) :
    y ∈ ys ↔ ∃ x ∈ xs, f x = .ok y := by
  induction xs generalizing ys with
  | nil =>
      simp only [List.mapM_nil, pure, Except.pure, Except.ok.injEq] at hrun
      simp [← hrun]
  | cons x xs ih =>
      simp only [List.mapM_cons, bind_eq_ok, pure, Except.pure, Except.ok.injEq] at hrun
      obtain ⟨first, hfirst, rest, hrest, rfl⟩ := hrun
      rw [List.mem_cons, ih hrest, List.exists_mem_cons_iff, hfirst, Except.ok.injEq, eq_comm]

theorem exists_mapM_eq_ok
    {α β : Type} {f : α → Except Failure β} {xs : List α}
    (hall : ∀ x ∈ xs, ∃ y, f x = .ok y) :
    ∃ ys, xs.mapM f = .ok ys := by
  induction xs with
  | nil => exact ⟨[], rfl⟩
  | cons x xs ih =>
      obtain ⟨y, hy⟩ := hall x (by simp)
      obtain ⟨ys, hys⟩ := ih fun x hx => hall x (List.mem_cons_of_mem _ hx)
      exact ⟨y :: ys, by simp [List.mapM_cons, hy, hys, bind, Except.bind, pure, Except.pure]⟩

theorem mapM_eq_map
    {α β : Type} {f : α → Except Failure β} {g : α → β} {xs : List α}
    (hrun : ∀ x ∈ xs, f x = .ok (g x)) :
    xs.mapM f = .ok (xs.map g) := by
  induction xs with
  | nil => rfl
  | cons x xs ih =>
      have hrest := ih fun y hy => hrun y (List.mem_cons_of_mem _ hy)
      simp [List.mapM_cons, hrun x (by simp), hrest, bind, Except.bind, pure, Except.pure]

theorem forall_ok_of_mapM
    {α β : Type} {f : α → Except Failure β} {xs : List α} {ys : List β}
    (hrun : xs.mapM f = .ok ys) :
    ∀ x ∈ xs, ∃ y, f x = .ok y := by
  induction xs generalizing ys with
  | nil => simp
  | cons x xs ih =>
      simp only [List.mapM_cons, bind_eq_ok, pure, Except.pure, Except.ok.injEq] at hrun
      obtain ⟨first, hfirst, rest, hrest, -⟩ := hrun
      exact List.forall_mem_cons.2 ⟨⟨first, hfirst⟩, ih hrest⟩

section Join

variable {index : SearchIndex} {left right : String} {leftTable rightTable : Postings}
  {rightBeginsWith : String}

theorem buildOuidMap_eq_ok (hleft : index.tableAt left = .ok leftTable) :
    buildOuidMap index left = .ok (invert leftTable) := by
  have hne : left ≠ "" := by
    rintro rfl
    simp [SearchIndex.tableAt] at hleft
  simp [buildOuidMap, confirm, hne, hleft, bind, Except.bind]

/-- What the join returns, if it returns: each accepted value with the last left
value of each of its ids. -/
theorem innerjoin_eq_ok
    (hleft : index.tableAt left = .ok leftTable) (hright : index.tableAt right = .ok rightTable)
    {pairs : List (String ×ₗ String)}
    (hjoin : indexedFilteredInnerjoinOverOuid index left right rightBeginsWith = .ok pairs) :
    pairs.SortedLT ∧
      (∀ r l, toLex (r, l) ∈ pairs ↔ acceptValue rightBeginsWith r ∧
        ∃ id, Listed rightTable r id ∧ ListedLast leftTable l id) ∧
      ∀ r id, acceptValue rightBeginsWith r → Listed rightTable r id →
        ∃ l, Listed leftTable l id := by
  simp only [indexedFilteredInnerjoinOverOuid, buildOuidMap_eq_ok hleft, hright, bind_eq_ok,
    Except.ok.injEq] at hjoin
  obtain ⟨_, rfl, _, rfl, rows, hrows, hresult⟩ := hjoin
  have hmem : ∀ pair, pair ∈ pairs ↔ pair ∈ rows := by
    intro pair
    split at hresult
    · rw [Except.ok.inj hresult]
    · rw [← Except.ok.inj hresult, mem_sortUnique]
  refine ⟨?_, fun r l => ?_, fun r id haccept hlisted => ?_⟩
  · split at hresult
    · rw [← Except.ok.inj hresult]
      exact sortedLT_of_length_lt_two ‹_›
    · rw [← Except.ok.inj hresult]
      exact sortUnique_sortedLT _
  · rw [hmem, mapM_eq_ok_mem hrows]
    constructor
    · rintro ⟨⟨r', id⟩, hrow, hok⟩
      obtain ⟨l', hlast, hpair⟩ := joinRow_eq_ok.1 hok
      rw [toLex_inj, Prod.mk.injEq] at hpair
      rw [mem_acceptedRows, ← hpair.1] at hrow
      rw [← hpair.2] at hlast
      exact ⟨hrow.1, id, hrow.2, hlast⟩
    · rintro ⟨haccept, id, hlisted, hlast⟩
      exact ⟨(r, id), mem_acceptedRows.2 ⟨haccept, hlisted⟩, joinRow_eq_ok.2 ⟨l, hlast, rfl⟩⟩
  · obtain ⟨pair, hpair⟩ :=
      forall_ok_of_mapM hrows (r, id) (mem_acceptedRows.2 ⟨haccept, hlisted⟩)
    obtain ⟨l, hlast, -⟩ := joinRow_eq_ok.1 hpair
    exact ⟨l, hlast.listed⟩

/-- The join returns if each id that it looks up has a left value. -/
theorem exists_innerjoin_eq_ok
    (hleft : index.tableAt left = .ok leftTable) (hright : index.tableAt right = .ok rightTable)
    (hcovered : ∀ r id, acceptValue rightBeginsWith r → Listed rightTable r id →
      ∃ l, Listed leftTable l id) :
    ∃ pairs, indexedFilteredInnerjoinOverOuid index left right rightBeginsWith = .ok pairs := by
  have hrows : ∃ rows,
      (acceptedRows rightBeginsWith rightTable).mapM (joinRow (invert leftTable)) = .ok rows := by
    refine exists_mapM_eq_ok fun ⟨r, id⟩ hrow => ?_
    rw [mem_acceptedRows] at hrow
    obtain ⟨l, hl⟩ := hcovered r id hrow.1 hrow.2
    obtain ⟨last, hlast⟩ := exists_listedLast hl
    exact ⟨_, joinRow_eq_ok.2 ⟨last, hlast, rfl⟩⟩
  obtain ⟨rows, hrows⟩ := hrows
  simp only [indexedFilteredInnerjoinOverOuid, buildOuidMap_eq_ok hleft, hright, hrows, bind,
    Except.bind]
  split
  · exact ⟨rows, rfl⟩
  · exact ⟨sortUnique rows, rfl⟩

end Join

/-! ## The join law -/

/-- The join of two tables by the ids that they share. -/
def InnerJoined
    (leftTable rightTable : Postings) (rightBeginsWith : String)
    (pairs : List (String ×ₗ String)) : Prop :=
  pairs.SortedLT ∧
    ∀ r l, toLex (r, l) ∈ pairs ↔
      acceptValue rightBeginsWith r ∧ ∃ id, Listed rightTable r id ∧ Listed leftTable l id

/-- The function joins the tables exactly when each id under an accepted value has
a left value and each left value of such an id is the last one of some id under
the same right value. -/
theorem indexedFilteredInnerjoinOverOuid_joins_iff
    {index : SearchIndex} {left right : String} {leftTable rightTable : Postings}
    {rightBeginsWith : String}
    (hleft : index.tableAt left = .ok leftTable)
    (hright : index.tableAt right = .ok rightTable) :
    (∃ pairs,
        indexedFilteredInnerjoinOverOuid index left right rightBeginsWith = .ok pairs ∧
          InnerJoined leftTable rightTable rightBeginsWith pairs) ↔
      (∀ r id, acceptValue rightBeginsWith r → Listed rightTable r id →
          ∃ l, Listed leftTable l id) ∧
        ∀ r l id, acceptValue rightBeginsWith r → Listed rightTable r id →
          Listed leftTable l id →
          ∃ id', Listed rightTable r id' ∧ ListedLast leftTable l id' := by
  constructor
  · rintro ⟨pairs, hjoin, -, hjoined⟩
    obtain ⟨-, hpairs, hcovered⟩ := innerjoin_eq_ok hleft hright hjoin
    refine ⟨hcovered, fun r l id haccept hr hl => ?_⟩
    have hpair : toLex (r, l) ∈ pairs := (hjoined r l).2 ⟨haccept, id, hr, hl⟩
    exact ((hpairs r l).1 hpair).2
  · rintro ⟨hcovered, hlast⟩
    obtain ⟨pairs, hjoin⟩ := exists_innerjoin_eq_ok hleft hright hcovered
    obtain ⟨hsorted, hpairs, -⟩ := innerjoin_eq_ok hleft hright hjoin
    refine ⟨pairs, hjoin, hsorted, fun r l => (hpairs r l).trans (and_congr_right fun haccept =>
      ⟨?_, ?_⟩)⟩
    · rintro ⟨id, hr, hl⟩
      exact ⟨id, hr, hl.listed⟩
    · rintro ⟨id, hr, hl⟩
      exact hlast r l id haccept hr hl

/-! ## Small collections -/

/-- A document of a version, with names of configurations and entities. -/
def plainDocument (version : String) (configurations entities : List String) : Object :=
  [("version", .string version),
    ("configurations",
      .array (configurations.map fun name =>
        .object [("name", .string name), ("assigned", .string "today")])),
    ("entities", .array (entities.map fun name => .object [("name", .string name)])),
    ("aliases", .object [("active", .array []), ("history", .array [])]),
    ("runs", .array [])]

/-- The insertion of a document under an id. -/
def insertRequest (oid : String) (document : Object) (hoid : oid ≠ "") : WriteRequest where
  collection := "run"
  isNew := true
  oid := oid
  userDocument := document
  document := document
  oid_ne := hoid

theorem plainDocument_indexable
    {version : String} {configurations entities : List String} (hversion : version ≠ "")
    (hconfigurations : "" ∉ configurations) (hentities : "" ∉ entities) :
    Indexable (plainDocument version configurations entities) :=
  ⟨{  version := version
      configurations := configurations.map fun name =>
        .object [("name", .string name), ("assigned", .string "today")]
      entities := entities.map fun name => .object [("name", .string name)]
      aliases := [("active", .array []), ("history", .array [])]
      active := []
      runs := []
      version_lookup := rfl
      configurations_lookup := rfl
      entities_lookup := rfl
      aliases_lookup := rfl
      active_lookup := rfl
      runs_lookup := rfl
      version_ne := hversion
      configurations_assigned := by
        intro entry hentry
        obtain ⟨name, hname, rfl⟩ := List.mem_map.1 hentry
        exact ⟨name, "today", rfl, ne_of_mem_of_not_mem hname hconfigurations, by decide⟩
      entities_named := by
        intro entry hentry
        obtain ⟨name, hname, rfl⟩ := List.mem_map.1 hentry
        exact ⟨name, rfl, ne_of_mem_of_not_mem hname hentities⟩
      active_named := by simp [EntriesNamed]
      runs_named := by simp [EntriesNamed] }⟩

/-- The index follows every insertion. -/
theorem followed_of_absent
    {c : Collection} {request : WriteRequest} (hindexable : Indexable request.document)
    (habsent : c.stored request.oid = none) :
    Followed c request where
  indexable := hindexable
  entities_kept := by simp [habsent]
  aliases_kept := by simp [habsent]
  assigned_unshared := by simp [habsent]

/-- One document of a configuration with two entities. -/
theorem firstOid_ne : "1" ≠ "" := by decide

def sharedCollection : Collection :=
  Collection.empty.replaced
    (insertRequest "1" (plainDocument "v1" ["global"] ["east", "west"]) firstOid_ne)

theorem sharedCollection_followable : Followable sharedCollection :=
  followable_replaced followable_empty (fun _ => rfl)
    (followed_of_absent (plainDocument_indexable (by decide) (by decide) (by decide)) rfl)

theorem sharedCollection_index :
    sharedCollection.index =
      { ouid := ["1"]
        version := [("v1", ["1"])]
        configurations := [("global", ["1"])]
        entities := [("east", ["1"]), ("west", ["1"])]
        versionAliases := []
        runs := []
        configurationsAssigned := [("global", ["today"])] } := by
  decide +kernel

/-- Each document has one version, so the versions of a configuration are joined. -/
theorem indexedFilteredInnerjoinOverOuid_joins_versions :
    ∃ pairs,
      indexedFilteredInnerjoinOverOuid sharedCollection.index "version" "configurations.name"
          "glob*" = .ok pairs ∧
        InnerJoined [("v1", ["1"])] [("global", ["1"])] "glob*" pairs := by
  have hleft : sharedCollection.index.tableAt "version" = .ok [("v1", ["1"])] := by
    rw [sharedCollection_index]
    rfl
  have hright : sharedCollection.index.tableAt "configurations.name" =
      .ok [("global", ["1"])] := by
    rw [sharedCollection_index]
    rfl
  have hlisted : Listed [("v1", ["1"])] "v1" "1" := ⟨["1"], by simp, by simp⟩
  refine (indexedFilteredInnerjoinOverOuid_joins_iff hleft hright).2 ⟨?_, ?_⟩
  · intro r id _ hr
    obtain ⟨ids, hmem, hid⟩ := hr
    simp only [List.mem_singleton, Prod.mk.injEq] at hmem
    rw [hmem.2, List.mem_singleton] at hid
    exact ⟨"v1", hid ▸ hlisted⟩
  · intro r l id _ hr hl
    obtain ⟨ids, hmem, hid⟩ := hl
    simp only [List.mem_singleton, Prod.mk.injEq] at hmem
    exact ⟨id, hr, [], ids, [], by simp [hmem], hid, by simp⟩

/-- Of the two entities of a document the join keeps one. -/
theorem indexedFilteredInnerjoinOverOuid_drops_entity :
    Coherent sharedCollection ∧
      ¬ ∃ pairs,
        indexedFilteredInnerjoinOverOuid sharedCollection.index "entities.name"
            "configurations.name" "global" = .ok pairs ∧
          InnerJoined sharedCollection.index.entities sharedCollection.index.configurations
            "global" pairs := by
  refine ⟨sharedCollection_followable.coherent, ?_⟩
  rw [sharedCollection_index]
  rintro ⟨pairs, hjoin, -, hjoined⟩
  have hwest : indexedFilteredInnerjoinOverOuid
      { ouid := ["1"]
        version := [("v1", ["1"])]
        configurations := [("global", ["1"])]
        entities := [("east", ["1"]), ("west", ["1"])]
        versionAliases := []
        runs := []
        configurationsAssigned := [("global", ["today"])] }
      "entities.name" "configurations.name" "global" = .ok [toLex ("global", "west")] := by
    decide +kernel
  have hpairs : pairs = [toLex ("global", "west")] :=
    Except.ok.inj (hjoin.symm.trans hwest)
  have heast : toLex ("global", "east") ∈ pairs :=
    (hjoined "global" "east").2
      ⟨by decide +kernel, "1", ⟨["1"], by simp, by simp⟩, ⟨["1"], by simp, by simp⟩⟩
  rw [hpairs, List.mem_singleton, toLex_inj] at heast
  exact absurd heast (by decide)

end ArtdaqDatabase
