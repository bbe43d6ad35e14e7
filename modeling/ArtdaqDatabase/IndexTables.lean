import ArtdaqDatabase.IndexCoherence

/-!
# Well-formed indexes

Each table of an index that the provider maintains is a JSON object without
repeated or empty names, and lists its ids in increasing order.
-/

namespace ArtdaqDatabase

open OrderedTable SortedUnique InvertedIndex InPlaceUpdate GuardedRun

/-! ## The tables -/

inductive Column where
  | version
  | configurations
  | entities
  | versionAliases
  | runs
  | configurationsAssigned
  deriving DecidableEq

namespace SearchIndex

def table (index : SearchIndex) : Column → Postings
  | .version => index.version
  | .configurations => index.configurations
  | .entities => index.entities
  | .versionAliases => index.versionAliases
  | .runs => index.runs
  | .configurationsAssigned => index.configurationsAssigned

def overTable (f : Postings → Postings) : Column → SearchIndex → SearchIndex
  | .version => overVersion f
  | .configurations => overConfigurations f
  | .entities => overEntities f
  | .versionAliases => overVersionAliases f
  | .runs => overRuns f
  | .configurationsAssigned => overConfigurationsAssigned f

@[simp]
theorem ouid_overTable (f : Postings → Postings) (column : Column) (index : SearchIndex) :
    (overTable f column index).ouid = index.ouid := by
  cases column <;> rfl

theorem table_overTable (f : Postings → Postings) (column other : Column) (index : SearchIndex) :
    (overTable f column index).table other =
      if other = column then f (index.table other) else index.table other := by
  cases column <;> cases other <;> rfl

@[simp]
theorem table_overOuid (f : List String → List String) (index : SearchIndex) :
    (overOuid f index).table = index.table := by
  funext column
  cases column <;> rfl

/-! ## Well-formed tables -/

structure WellFormed (index : SearchIndex) : Prop where
  ouid : index.ouid.SortedLT
  keys : ∀ column, ((index.table column).map Prod.fst).Nodup
  values : ∀ column, "" ∉ (index.table column).map Prod.fst
  postings : ∀ column, SortedPostings (index.table column)

theorem wellFormed_empty : WellFormed SearchIndex.empty where
  ouid := List.Pairwise.nil.sortedLT
  keys column := by cases column <;> exact List.nodup_nil
  values column := by cases column <;> exact List.not_mem_nil
  postings column := by cases column <;> exact sortedPostings_nil

/-- A rewriting that keeps one table well-formed. -/
theorem WellFormed.overTable
    {index : SearchIndex} (h : WellFormed index) {f : Postings → Postings} {column : Column}
    (hkeys : ((f (index.table column)).map Prod.fst).Nodup)
    (hvalues : "" ∉ (f (index.table column)).map Prod.fst)
    (hpostings : SortedPostings (f (index.table column))) :
    WellFormed (SearchIndex.overTable f column index) := by
  refine ⟨by simpa using h.ouid, fun other => ?_, fun other => ?_, fun other => ?_⟩
  all_goals
    rw [table_overTable]
    split
  · rename_i heq
    rwa [heq]
  · exact h.keys other
  · rename_i heq
    rwa [heq]
  · exact h.values other
  · rename_i heq
    rwa [heq]
  · exact h.postings other

theorem WellFormed.insert
    {index : SearchIndex} (h : WellFormed index) {value : String} (hvalue : value ≠ "")
    (column : Column) (ouid : String) :
    WellFormed (SearchIndex.overTable (insertPosting value ouid) column index) := by
  refine h.overTable (keys_insertPosting_nodup (h.keys column) value ouid) (fun hmem => ?_)
    ((h.postings column).insertPosting value ouid)
  rcases mem_keys_insertPosting hmem with heq | hold
  · exact hvalue heq.symm
  · exact h.values column hold

theorem WellFormed.drop
    {index : SearchIndex} (h : WellFormed index) (column : Column) (value ouid : String) :
    WellFormed (SearchIndex.overTable (dropPosting value ouid) column index) :=
  h.overTable (by simpa using h.keys column) (by simpa using h.values column)
    ((h.postings column).dropPosting value ouid)

theorem WellFormed.overOuid
    {index : SearchIndex} (h : WellFormed index) (f : List String → List String)
    (hf : (f index.ouid).SortedLT) :
    WellFormed (SearchIndex.overOuid f index) where
  ouid := hf
  keys column := by simpa using h.keys column
  values column := by simpa using h.values column
  postings column := by simpa using h.postings column

end SearchIndex

open SearchIndex

/-! ## Updates -/

/-- A well-formed index stays well-formed. -/
def StaysWellFormed (index index' : SearchIndex) : Prop :=
  WellFormed index → WellFormed index'

instance : Std.Refl StaysWellFormed :=
  ⟨fun _ h => h⟩

instance : IsTrans SearchIndex StaysWellFormed :=
  ⟨fun _ _ _ h h' => h' ∘ h⟩

/-- The rewriting is reached only with a value. -/
theorem moves_updateTable
    {r : SearchIndex → SearchIndex → Prop} [Std.Refl r]
    {rewrite : SearchIndex → SearchIndex} {value : String}
    (hrewrite : value ≠ "" → ∀ index, r index (rewrite index)) (ouid : String) :
    Moves r (updateTable ouid value rewrite) := by
  intro index
  by_cases houid : ouid = ""
  · have hconfirm : confirm (ouid ≠ "") = .error .confirmFailed := by simp [confirm, houid]
    have hrun : updateTable ouid value rewrite index = .error .confirmFailed index :=
      bind_error (lift_run_error hconfirm index)
    rw [after_of_error hrun]
    exact refl index
  · by_cases hvalue : value = ""
    · have hfirst : confirm (ouid ≠ "") = .ok () := by simp [confirm, houid]
      have hsecond : confirm (value ≠ "") = .error .confirmFailed := by simp [confirm, hvalue]
      have hrun : updateTable ouid value rewrite index = .error .confirmFailed index :=
        (bind_run (lift_run hfirst index)).trans (bind_error (lift_run_error hsecond index))
      rw [after_of_error hrun]
      exact refl index
    · rw [after_of_ok (updateTable_run houid hvalue rewrite index)]
      exact hrewrite hvalue index

section Documents

variable {r : SearchIndex → SearchIndex → Prop} [Std.Refl r] [IsTrans SearchIndex r]

omit [Std.Refl r] [IsTrans SearchIndex r] in
theorem moves_tryIgnore {body : IndexM Unit} (hbody : Moves r body) :
    Moves r (tryIgnore body) :=
  Moves.tryCatch hbody fun _ _ => rfl

theorem moves_forEachName
    {act : String → IndexM Unit} (hact : ∀ name, Moves r (act name)) (entries : List Value) :
    Moves r (forEachName entries act) :=
  Moves.forM fun _ _ => Moves.bind (Moves.lift _) hact

theorem moves_forEachConfiguration
    {act actAssigned : String → String → IndexM Unit}
    (hact : ∀ ouid name, Moves r (act ouid name))
    (hactAssigned : ∀ assigned name, Moves r (actAssigned assigned name))
    (configs : List Value) (ouid : String) :
    Moves r (forEachConfiguration configs act actAssigned ouid) :=
  Moves.forM fun _ _ => Moves.bind (Moves.lift _) fun _ => Moves.bind (hact _ _) fun _ =>
    Moves.bind (Moves.lift _) fun _ => hactAssigned _ _

/-- What holds of each insertion holds of `addDocument`. -/
theorem moves_addDocument
    (hid : ∀ ouid, Moves r (addId ouid))
    (hinsert : ∀ column ouid value,
      Moves r (updateTable ouid value (overTable (insertPosting value ouid) column)))
    (document : Object) (ouid : String) :
    Moves r (addDocument document ouid) := by
  have hnames : ∀ (column : Column) (names : Except Failure (List Value)),
      Moves r (tryIgnore do
        let entries ← lift names
        forEachName entries fun name =>
          updateTable ouid name (overTable (insertPosting name ouid) column)) :=
    fun column names => moves_tryIgnore <| Moves.bind (Moves.lift _) fun entries =>
      moves_forEachName (hinsert column ouid) entries
  refine Moves.bind (Moves.lift _) fun _ => Moves.tryCatch ?_ fun _ _ => rfl
  refine Moves.bind (hid ouid) fun _ => Moves.bind (Moves.lift _) fun version =>
    Moves.bind (hinsert .version ouid version) fun _ => Moves.bind (Moves.lift _) fun configs =>
    Moves.bind (moves_forEachConfiguration (hinsert .configurations)
      (hinsert .configurationsAssigned) configs ouid) fun _ => ?_
  exact Moves.bind (hnames .entities _) fun _ => Moves.bind (hnames .versionAliases _) fun _ =>
    Moves.bind (hnames .runs _) fun _ => Moves.pure true

/-- What holds of each removal holds of `removeDocument`. -/
theorem moves_removeDocument
    (hid : ∀ ouid, Moves r (removeId ouid))
    (hdrop : ∀ column ouid value,
      Moves r (updateTable ouid value (overTable (dropPosting value ouid) column)))
    (document : Object) (ouid : String) :
    Moves r (removeDocument document ouid) := by
  refine Moves.bind (Moves.lift _) fun _ => Moves.tryCatch ?_ fun _ _ => rfl
  refine Moves.bind (hid ouid) fun _ => Moves.bind (Moves.lift _) fun version =>
    Moves.bind (hdrop .version ouid version) fun _ => Moves.bind (Moves.lift _) fun configs =>
    Moves.bind (moves_forEachConfiguration (hdrop .configurations)
      (hdrop .configurationsAssigned) configs ouid) fun _ => ?_
  exact Moves.bind (Moves.lift _) fun aliases =>
    Moves.bind (moves_forEachName (hdrop .configurations ouid) aliases) fun _ =>
    Moves.bind (Moves.lift _) fun runs =>
    Moves.bind (moves_forEachName (hdrop .runs ouid) runs) fun _ => Moves.pure true

end Documents

theorem wellFormed_addDocument
    {index : SearchIndex} (h : WellFormed index) (document : Object) (ouid : String) :
    WellFormed (after (addDocument document ouid) index) := by
  refine moves_addDocument (r := StaysWellFormed) (fun ouid => ?_) (fun column ouid value => ?_)
    document ouid index h
  · exact Moves.bind (Moves.lift _) fun _ => fun index h =>
      h.overOuid (fun ouids => sortUnique (ouids ++ [ouid])) (sortUnique_sortedLT _)
  · exact moves_updateTable (fun hvalue index h => h.insert hvalue column ouid) ouid

theorem wellFormed_removeDocument
    {index : SearchIndex} (h : WellFormed index) (document : Object) (ouid : String) :
    WellFormed (after (removeDocument document ouid) index) := by
  refine moves_removeDocument (r := StaysWellFormed) (fun ouid => ?_) (fun column ouid value => ?_)
    document ouid index h
  · exact Moves.bind (Moves.lift _) fun _ => fun index h =>
      h.overOuid (fun ouids => ouids.filter (· ≠ ouid)) (sortedLT_filter h.ouid _)
  · exact moves_updateTable (fun _ index h => h.drop column value ouid) ouid

theorem wellFormed_replaced
    {c : Collection} (h : WellFormed c.index) (request : WriteRequest) :
    WellFormed (c.replaced request).index := by
  refine wellFormed_addDocument ?_ request.document request.oid
  unfold Collection.indexWithout
  split
  · exact h
  · split
    · exact wellFormed_removeDocument h _ _
    · exact h

/-- Every write keeps the index of every collection well-formed. -/
theorem wellFormed_writes
    {name : String} {store : Store} (h : WellFormed (collectionAt name store).index)
    (calls : List (Environment × Value)) :
    WellFormed (collectionAt name (writes store calls)).index := by
  have hmeets : Meets writeStep (fun _ _ => True) store calls :=
    meets_of_forall (fun _ _ _ => trivial) store
  have hstep : ∀ store call, WellFormed (collectionAt name store).index → True →
      WellFormed (collectionAt name (writeStep store call)).index :=
    fun store call hstore _ => collectionAt_writeStep (P := fun c => WellFormed c.index)
      (fun request _ _ _ => wellFormed_replaced hstore request) hstore
  exact run_invariant (fun store => WellFormed (collectionAt name store).index) hstep h hmeets

end ArtdaqDatabase
