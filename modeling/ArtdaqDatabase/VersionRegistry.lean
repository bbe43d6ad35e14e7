import ArtdaqDatabase.ApiCalls
import ArtdaqDatabase.WidenedSearch

/-!
# The registry of versions

What the interface of versions is for: a collection registers data under a version,
once and for all, with the entities they are for.  A search names a version and perhaps
an entity; it takes the greatest of the versions it finds, and finds those of which
either name is right where there is none of which both are.
-/

namespace ArtdaqDatabase

open OrderedTable WidenedSearch

/-! ## Entries -/

/-- What is registered under a version. -/
structure Entry where
  entities : Set String
  frozen : Bool
  data : Object

abbrev Versions := String → Option Entry

/-- The entries of each collection by their versions. -/
abbrev Registry := String → Versions

def Registry.empty : Registry := fun _ _ => none

def Registry.put (r : Registry) (collection version : String) (entry : Entry) : Registry :=
  Function.update r collection (Function.update (r collection) version (some entry))

def Registry.forget (r : Registry) (collection version : String) : Registry :=
  Function.update r collection (Function.update (r collection) version none)

theorem Registry.put_apply (r : Registry) (collection version : String) (entry : Entry)
    (name v : String) :
    r.put collection version entry name v =
      if name = collection ∧ v = version then some entry else r name v := by
  by_cases hname : name = collection
  · subst hname
    by_cases hv : v = version
    · simp [Registry.put, hv]
    · simp [Registry.put, hv]
  · simp [Registry.put, hname]

theorem Registry.forget_apply (r : Registry) (collection version : String) (name v : String) :
    r.forget collection version name v =
      if name = collection ∧ v = version then none else r name v := by
  by_cases hname : name = collection
  · subst hname
    by_cases hv : v = version
    · simp [Registry.forget, hv]
    · simp [Registry.forget, hv]
  · simp [Registry.forget, hname]

/-- The entry replaces the one of the old version, if there is one. -/
def Registry.move (r : Registry) (collection : String) (old : Option String) (version : String)
    (entry : Entry) : Registry :=
  (old.elim r (r.forget collection)).put collection version entry

theorem Registry.move_apply (r : Registry) (collection : String) (old : Option String)
    (version : String) (entry : Entry) (name v : String) :
    r.move collection old version entry name v =
      if name = collection ∧ v = version then some entry
      else if name = collection ∧ old = some v then none else r name v := by
  cases old with
  | none => simp [Registry.move, put_apply]
  | some u => simp [Registry.move, put_apply, forget_apply, eq_comm]

theorem Registry.move_same (r : Registry) (collection version : String) (entry : Entry) :
    r.move collection (some version) version entry = r.put collection version entry := by
  funext name v
  rw [move_apply, put_apply]
  by_cases h : name = collection ∧ v = version
  · simp [h]
  · rw [if_neg h, if_neg h, if_neg]
    rintro ⟨hname, hv⟩
    exact h ⟨hname, (Option.some.inj hv).symm⟩

/-! ## Searches -/

/-- The names that a call is given. -/
structure VersionName where
  collection : String
  version : String
  entity : String

/-- A collection and a version have to be named. -/
def VersionName.Named (name : VersionName) : Prop :=
  name.version ≠ "" ∧ name.collection ≠ ""

instance (name : VersionName) : Decidable name.Named :=
  inferInstanceAs (Decidable (_ ∧ _))

/-- The entity under which data are registered. -/
def VersionName.entityText (name : VersionName) : String :=
  if name.entity = "" then "notprovided" else name.entity

/-- The name is asked for, unless it stands for one that is not provided. -/
def askedFor {R : Type} (text : String) (criterion : R → Prop) : List (R → Prop) :=
  if text = "notprovided" then [] else [criterion]

def VersionName.criteria (name : VersionName) : List (String × Entry → Prop) :=
  askedFor name.version (fun p => p.1 = name.version) ++
    askedFor name.entityText fun p => name.entityText ∈ p.2.entities

def Versions.entries (versions : Versions) : Set (String × Entry) :=
  {p | versions p.1 = some p.2}

theorem Versions.entries_injOn (versions : Versions) : Set.InjOn Prod.fst versions.entries := by
  intro p hp q hq hversion
  have hentry : some p.2 = some q.2 := by
    rw [← show versions p.1 = some p.2 from hp, ← show versions q.1 = some q.2 from hq, hversion]
  exact Prod.ext hversion (Option.some.inj hentry)

/-- The version that is taken, with its entry. -/
noncomputable def Registry.select (r : Registry) (name : VersionName) : Option (String × Entry) :=
  if name.Named then WidenedSearch.select Prod.fst (r name.collection).entries name.criteria
  else none

/-! ## Calls -/

inductive VersionCall where
  | store (clock : Clock) (name : VersionName) (data : Object)
  | overwrite (clock : Clock) (name : VersionName) (data : Object)
  | markReadonly (clock : Clock) (name : VersionName)
  | load (name : VersionName)

inductive VersionReply where
  | refused
  | done
  | loaded (data : Object)
  deriving DecidableEq

/-- A version that is overwritten gets the version and the entity of the call, unless it
is frozen: then its data alone are replaced. -/
def Registry.overwritten (r : Registry) (name : VersionName) (data : Object) (version : String)
    (entry : Entry) : Registry :=
  if entry.frozen then r.put name.collection version { entry with data := data }
  else
    r.move name.collection (some version) name.version
      ⟨insert name.entityText entry.entities, false, data⟩

/-- The registry answers a call. -/
noncomputable def Registry.answer (r : Registry) : VersionCall → VersionReply × Registry
  | .store _ name data =>
      if name.Named ∧ r name.collection name.version = none then
        (.done, r.put name.collection name.version ⟨{name.entityText}, false, data⟩)
      else (.refused, r)
  | .overwrite _ name data =>
      match r.select name with
      | some (version, entry) => (.done, r.overwritten name data version entry)
      | none => (.refused, r)
  | .markReadonly _ name =>
      match r.select { name with entity := "" } with
      | some (version, entry) =>
          (.done, r.put name.collection version { entry with frozen := true })
      | none => (.refused, r)
  | .load name =>
      match r.select name with
      | some (_, entry) => (if entry.data = [] then .refused else .loaded entry.data, r)
      | none => (.refused, r)

/-- A call does not overwrite one version by another that is registered, too. -/
def Registry.Orderly (r : Registry) : VersionCall → Prop
  | .overwrite _ name _ => ∀ version entry, r.select name = some (version, entry) →
      entry.frozen = true ∨ version = name.version ∨ r name.collection name.version = none
  | _ => True

end ArtdaqDatabase
