import ArtdaqDatabase.OrderedTable
import Mathlib.Data.Finset.Insert
import Mathlib.Data.Set.Basic

/-!
# The difference of two compositions

`computeCompositionDiff` decides by the key of a configuration and an entity,
while a member of a composition is a key with a version.  The old list may hold
one key at several versions; the keys of the new list do not repeat.
-/

namespace ArtdaqDatabase

open OrderedTable

@[ext]
structure VersionInfo where
  configuration : String
  version : String
  entity : String
  deriving DecidableEq

abbrev MembershipKey := String × String

def makeMembershipKey (vi : VersionInfo) : MembershipKey :=
  (vi.configuration, vi.entity)

structure CompositionDiff where
  toUnassign : List VersionInfo
  toAssign : List VersionInfo
  unchanged : Finset MembershipKey
  deriving DecidableEq

/-- `new_map`, in which a repeated key has its last version. -/
def newVersions (newMembers : List VersionInfo) : Table MembershipKey String :=
  setAll (newMembers.map fun newMember => (makeMembershipKey newMember, newMember.version)) []

/-- One old member. -/
def diffOldMember
    (newMap : Table MembershipKey String) (diff : CompositionDiff) (oldMember : VersionInfo) :
    CompositionDiff :=
  match lookup (makeMembershipKey oldMember) newMap with
  | none => { diff with toUnassign := diff.toUnassign ++ [oldMember] }
  | some version =>
      if version ≠ oldMember.version then
        { diff with toUnassign := diff.toUnassign ++ [oldMember] }
      else
        { diff with unchanged := insert (makeMembershipKey oldMember) diff.unchanged }

def computeCompositionDiff (oldMembers newMembers : List VersionInfo) : CompositionDiff :=
  let diff := oldMembers.foldl (diffOldMember (newVersions newMembers)) ⟨[], [], ∅⟩
  { diff with
    toAssign :=
      newMembers.filter fun newMember => makeMembershipKey newMember ∉ diff.unchanged }

/-! ## The pass over the old members -/

/-- The new list has the member's key at the member's version. -/
def Unchanged (newMap : Table MembershipKey String) (member : VersionInfo) : Prop :=
  lookup (makeMembershipKey member) newMap = some member.version

theorem diffOldMember_of_unchanged
    {newMap : Table MembershipKey String} {member : VersionInfo}
    (hmember : Unchanged newMap member) (diff : CompositionDiff) :
    diffOldMember newMap diff member =
      { diff with unchanged := insert (makeMembershipKey member) diff.unchanged } := by
  rw [diffOldMember, hmember]
  simp

theorem diffOldMember_of_changed
    {newMap : Table MembershipKey String} {member : VersionInfo}
    (hmember : ¬ Unchanged newMap member) (diff : CompositionDiff) :
    diffOldMember newMap diff member =
      { diff with toUnassign := diff.toUnassign ++ [member] } := by
  unfold Unchanged at hmember
  unfold diffOldMember
  cases hversion : lookup (makeMembershipKey member) newMap with
  | none => rfl
  | some version =>
      have hne : version ≠ member.version := by
        rintro rfl
        exact hmember hversion
      exact if_pos hne

theorem mem_toUnassign_foldl
    (newMap : Table MembershipKey String) (oldMembers : List VersionInfo)
    (diff : CompositionDiff) (member : VersionInfo) :
    member ∈ (oldMembers.foldl (diffOldMember newMap) diff).toUnassign ↔
      member ∈ diff.toUnassign ∨ member ∈ oldMembers ∧ ¬ Unchanged newMap member := by
  induction oldMembers generalizing diff with
  | nil => simp
  | cons first rest ih =>
      rw [List.foldl_cons, ih]
      by_cases hfirst : Unchanged newMap first
      · rw [diffOldMember_of_unchanged hfirst]
        have hother : ¬ Unchanged newMap member → member ≠ first := by
          rintro hmember rfl
          exact hmember hfirst
        rw [List.mem_cons]
        tauto
      · rw [diffOldMember_of_changed hfirst]
        have hsame : member = first → ¬ Unchanged newMap member := by
          rintro rfl
          exact hfirst
        rw [List.mem_append, List.mem_singleton, List.mem_cons]
        tauto

theorem mem_unchanged_foldl
    (newMap : Table MembershipKey String) (oldMembers : List VersionInfo)
    (diff : CompositionDiff) (key : MembershipKey) :
    key ∈ (oldMembers.foldl (diffOldMember newMap) diff).unchanged ↔
      key ∈ diff.unchanged ∨
        ∃ member ∈ oldMembers, makeMembershipKey member = key ∧ Unchanged newMap member := by
  induction oldMembers generalizing diff with
  | nil => simp
  | cons first rest ih =>
      rw [List.foldl_cons, ih, List.exists_mem_cons_iff]
      by_cases hfirst : Unchanged newMap first
      · rw [diffOldMember_of_unchanged hfirst, Finset.mem_insert]
        have hkey : key = makeMembershipKey first ↔ makeMembershipKey first = key := eq_comm
        tauto
      · rw [diffOldMember_of_changed hfirst]
        tauto

/-! ## The difference -/

section Difference

variable {oldMembers newMembers : List VersionInfo} {member : VersionInfo}

theorem unchanged_of_mem
    (hkeys : (newMembers.map makeMembershipKey).Nodup) (hmember : member ∈ newMembers) :
    Unchanged (newVersions newMembers) member := by
  refine lookup_setAll_of_mem ?_ (List.mem_map.2 ⟨member, hmember, rfl⟩)
  simpa [List.map_map, Function.comp_def] using hkeys

/-- A key and a version determine the member. -/
theorem unchanged_iff_mem (hkeys : (newMembers.map makeMembershipKey).Nodup) :
    Unchanged (newVersions newMembers) member ↔ member ∈ newMembers := by
  constructor
  · intro hunchanged
    have hpair := mem_of_lookup_setAll hunchanged
    obtain ⟨newMember, hnew, hsame⟩ := List.mem_map.1 hpair
    simp only [makeMembershipKey, Prod.mk.injEq] at hsame
    have heq : newMember = member := VersionInfo.ext hsame.1.1 hsame.2 hsame.1.2
    rwa [← heq]
  · exact unchanged_of_mem hkeys

theorem mem_toUnassign (hkeys : (newMembers.map makeMembershipKey).Nodup) :
    member ∈ (computeCompositionDiff oldMembers newMembers).toUnassign ↔
      member ∈ oldMembers ∧ member ∉ newMembers := by
  have hpass := mem_toUnassign_foldl (newVersions newMembers) oldMembers ⟨[], [], ∅⟩ member
  rw [unchanged_iff_mem hkeys] at hpass
  simpa [computeCompositionDiff] using hpass

/-- A new member is left out only for an old member at its own version: another
version of its key is no version of the new list. -/
theorem mem_toAssign (hkeys : (newMembers.map makeMembershipKey).Nodup) :
    member ∈ (computeCompositionDiff oldMembers newMembers).toAssign ↔
      member ∈ newMembers ∧ member ∉ oldMembers := by
  have hpass := mem_unchanged_foldl (newVersions newMembers) oldMembers ⟨[], [], ∅⟩
    (makeMembershipKey member)
  simp only [Finset.notMem_empty, false_or] at hpass
  simp only [computeCompositionDiff, List.mem_filter, decide_eq_true_eq, hpass]
  refine and_congr_right fun hnew => not_congr ⟨?_, fun hold => ?_⟩
  · rintro ⟨old, hold, hkey, hunchanged⟩
    have hversion : some old.version = some member.version := by
      rw [← hunchanged, hkey]
      exact unchanged_of_mem hkeys hnew
    simp only [makeMembershipKey, Prod.mk.injEq] at hkey
    have heq : old = member :=
      VersionInfo.ext hkey.1 (Option.some.inj hversion) hkey.2
    rwa [← heq]
  · exact ⟨member, hold, rfl, unchanged_of_mem hkeys hnew⟩

end Difference

/-- Unassigning and assigning the difference turns the old members into the new
ones and touches no member of both. -/
theorem computeCompositionDiff_exact
    {oldMembers newMembers : List VersionInfo}
    (hkeys : (newMembers.map makeMembershipKey).Nodup) :
    let diff := computeCompositionDiff oldMembers newMembers
    ({member | member ∈ oldMembers} \ {member | member ∈ diff.toUnassign}) ∪
          {member | member ∈ diff.toAssign} = {member | member ∈ newMembers} ∧
      (∀ member ∈ diff.toUnassign, member ∉ newMembers) ∧
      ∀ member ∈ diff.toAssign, member ∉ oldMembers := by
  intro diff
  refine ⟨?_, fun member hmember => ((mem_toUnassign hkeys).1 hmember).2,
    fun member hmember => ((mem_toAssign hkeys).1 hmember).2⟩
  ext member
  simp only [Set.mem_union, Set.mem_sdiff, Set.mem_ofPred_eq, diff, mem_toUnassign hkeys,
    mem_toAssign hkeys]
  tauto

/-- One key is kept at one of its two old versions, one moves on, one goes. -/
theorem computeCompositionDiff_exact_repeated :
    computeCompositionDiff
        [⟨"calibration", "v1", "east"⟩, ⟨"calibration", "v2", "east"⟩,
          ⟨"timing", "v1", "east"⟩, ⟨"timing", "v1", "west"⟩]
        [⟨"calibration", "v2", "east"⟩, ⟨"timing", "v2", "east"⟩] =
      { toUnassign :=
          [⟨"calibration", "v1", "east"⟩, ⟨"timing", "v1", "east"⟩, ⟨"timing", "v1", "west"⟩]
        toAssign := [⟨"timing", "v2", "east"⟩]
        unchanged := {("calibration", "east")} } ∧
      ∀ member ∈
        (computeCompositionDiff
          [⟨"calibration", "v1", "east"⟩, ⟨"calibration", "v2", "east"⟩,
            ⟨"timing", "v1", "east"⟩, ⟨"timing", "v1", "west"⟩]
          [⟨"calibration", "v2", "east"⟩, ⟨"timing", "v2", "east"⟩]).toAssign,
        member ∉ [⟨"calibration", "v1", "east"⟩, ⟨"calibration", "v2", "east"⟩,
          ⟨"timing", "v1", "east"⟩, ⟨"timing", "v1", "west"⟩] :=
  ⟨by decide +kernel, (computeCompositionDiff_exact (by decide)).2.2⟩

end ArtdaqDatabase
