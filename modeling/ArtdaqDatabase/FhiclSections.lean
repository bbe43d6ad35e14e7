import ArtdaqDatabase.FhiclExport
import ArtdaqDatabase.JsonDocument
import ArtdaqDatabase.JsonReader

/-!
# Prolog and main

`FhiclReader` sorts the parameters of a parsed table into two sections, and
`FhiclWriter` joins each of them again.  The reader starts behind the parse and the
writer ends in front of the generator, so both speak of trees.
-/

namespace ArtdaqDatabase

open OrderedTable

/-- `enablePrologMode`. -/
def ExtraOpts.prologMode : ExtraOpts := ⟨true, false⟩

/-- `enableDefaultMode`. -/
def ExtraOpts.defaultMode : ExtraOpts := ⟨false, true⟩

/-! ## Reading -/

/-- The metadata of a section have no annotation. -/
def sectionNode (name : String) (children : Object) : Object :=
  [("type", .string "table"), ("comment", .string ("#" ++ name)), ("children", .object children)]

/-- `FhiclReader::read_data` behind the parse. -/
def readData (comments : Comments) (fhiclTable : List (String × ExtendedValue)) :
    Except Failure Object := do
  let prolog ← tablePairs comments .prologMode fhiclTable
  let main ← tablePairs comments .defaultMode fhiclTable
  return [
    ("data", .object [
      ("prolog", .object (prolog.map Prod.fst)),
      ("main", .object (main.map Prod.fst))]),
    ("metadata", .object [
      ("prolog", .object (sectionNode "prolog" (prolog.map Prod.snd))),
      ("main", .object (sectionNode "main" (main.map Prod.snd)))])]

/-! ## Writing -/

/-- Nothing is swallowed while a section is filled. -/
def fillAll {α : Type} : List (Except Failure α) → Except Failure (List α)
  | [] => .ok []
  | result :: rest => do
      let a ← result
      let pushed ← fillAll rest
      return a :: pushed

def writeSection (name : String) (dataNode metadataNode : Object) :
    Except Failure (List Atom) := do
  let data ← objectAt name dataNode
  let node ← objectAt name metadataNode
  let metadata ← objectAt "children" node
  fillAll (memberResults metadata data)

/-- The tables of the prolog and of the main section. -/
structure FhiclTables where
  prolog : List Atom
  main : List Atom

/-- `FhiclWriter::write_data` in front of the generator. -/
def writeData (jsonObject : Object) : Except Failure FhiclTables := do
  confirm (jsonObject ≠ [])
  let dataNode ← objectAt "data" jsonObject
  let metadataNode ← objectAt "metadata" jsonObject
  let prolog ← writeSection "prolog" dataNode metadataNode
  let main ← writeSection "main" dataNode metadataNode
  return ⟨prolog, main⟩

/-- `json_to_fhicl`, where `none` is the answer `false`. -/
def jsonToFhicl (decimalText : List Char → String) (json : String) :
    Except Failure (Option FhiclTables) := do
  confirm (json ≠ "")
  match ← JsonReader.read decimalText json with
  | none => return none
  | some jsonRoot =>
      -- a missing document is created as a boolean
      let document ← ((lookup "document" jsonRoot).getD (.boolean false)).getObject
      let tables ← writeData document
      return some tables

/-! ## What the sections hold -/

section

variable {comments : Comments} {opts : ExtraOpts}

/-- Nothing is split without comments. -/
theorem fcl2jsondb_without_comments (opts : ExtraOpts) (key : String) (v : ExtendedValue) :
    ∃ failure, fcl2jsondb [] opts key v = .error failure := by
  have hcomments : confirm (([] : Comments) ≠ []) = .error .confirmFailed := rfl
  refine ⟨.fhiclError key, ?_⟩
  cases v <;> rw [fcl2jsondb, hcomments] <;> cases confirm (key ≠ "") <;> rfl

/-- The pairs of a legal table that was split. -/
theorem tablePairs_eq_ok
    {members : List (String × ExtendedValue)} (hmembers : membersLegal members)
    {pairs : List Datapair} (h : tablePairs comments opts members = .ok pairs) :
    pairs.map Prod.fst = membersData opts members ∧
      pairs.map Prod.snd = membersMetadata comments opts members := by
  by_cases hcomments : comments = []
  · subst hcomments
    induction members generalizing pairs with
    | nil =>
        cases h
        exact ⟨rfl, rfl⟩
    | cons member members ih =>
        obtain ⟨key, v⟩ := member
        rw [tablePairs] at h
        by_cases hselects : opts.selects v
        · have ⟨failure, hfailure⟩ := fcl2jsondb_without_comments opts key v
          rw [if_pos hselects, hfailure] at h
          cases h
        · rw [if_neg hselects] at h
          rw [membersData, membersMetadata, if_neg hselects, if_neg hselects]
          exact ih hmembers.2.2 h
  · have ⟨legal, hlegal, hdata, hmetadata⟩ := tablePairs_legal opts hcomments members hmembers
    rw [hlegal] at h
    cases h
    exact ⟨hdata, hmetadata⟩

/-- A single tree that was split. -/
theorem fcl2jsondb_eq_ok
    {key : String} {v : ExtendedValue} (hv : v.Legal) {pair : Datapair}
    (h : fcl2jsondb comments opts key v = .ok pair) : pair = splitPair comments opts key v := by
  have hcomments : comments ≠ [] := by
    rintro rfl
    have ⟨failure, hfailure⟩ := fcl2jsondb_without_comments opts key v
    rw [hfailure] at h
    cases h
  have hkey : key ≠ "" := by
    rintro rfl
    have hconfirm : confirm ("" ≠ "") = .error .confirmFailed := rfl
    cases v <;> rw [fcl2jsondb, hconfirm] at h <;> cases h
  rw [fcl2jsondb_legal opts hcomments hkey v hv] at h
  cases h
  rfl

end

/-- The data and the metadata that the reader makes. -/
theorem readData_eq_ok
    {comments : Comments} {fhiclTable : List (String × ExtendedValue)}
    (hlegal : membersLegal fhiclTable) {object : Object}
    (h : readData comments fhiclTable = .ok object) :
    object = [
      ("data", .object [
        ("prolog", .object (membersData .prologMode fhiclTable)),
        ("main", .object (membersData .defaultMode fhiclTable))]),
      ("metadata", .object [
        ("prolog", .object (sectionNode "prolog"
          (membersMetadata comments .prologMode fhiclTable))),
        ("main", .object (sectionNode "main"
          (membersMetadata comments .defaultMode fhiclTable)))])] := by
  unfold readData at h
  simp only [bind_eq_ok, pure, Except.pure, Except.ok.injEq] at h
  obtain ⟨prolog, hprolog, main, hmain, rfl⟩ := h
  have ⟨hprologData, hprologMetadata⟩ := tablePairs_eq_ok hlegal hprolog
  have ⟨hmainData, hmainMetadata⟩ := tablePairs_eq_ok hlegal hmain
  rw [hprologData, hprologMetadata, hmainData, hmainMetadata]

end ArtdaqDatabase
