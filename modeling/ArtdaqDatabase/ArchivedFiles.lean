import Mathlib.Data.List.DropRight
import Mathlib.Tactic

/-!
# Names of archived files

A file of a configuration archive is stored in a collection named by the last two parts
of its path, with a point between them.  The way back looks for the point in front of the
extension and makes slashes of the points before it.
-/

namespace ArtdaqDatabase

/-! ## Paths -/

/-- `basename`. -/
def basename (path : List Char) : List Char :=
  let stripped := path.rdropWhile (· = '/')
  if path = [] then ['.']
  else if stripped = [] then ['/']
  else stripped.rtakeWhile (· ≠ '/')

/-- `dirname`. -/
def dirname (path : List Char) : List Char :=
  let stripped := path.rdropWhile (· = '/')
  let parent := stripped.rdropWhile (· ≠ '/')
  if path = [] then ['.']
  else if stripped = [] then ['/']
  else if parent = [] then ['.']
  else if parent.rdropWhile (· = '/') = [] then ['/']
  else parent.rdropWhile (· = '/')

def collectionNameFromRelativePath (filePath : List Char) : List Char :=
  let names := [basename (dirname filePath), basename filePath]
  (names.flatMap (· ++ ['.'])).dropLast

/-- `std::string::rfind` of a character. -/
def rfind (c : Char) : List Char → Option ℕ
  | [] => none
  | d :: rest =>
      match rfind c rest with
      | some i => some (i + 1)
      | none => if d = c then some 0 else none

/-- `std::replace` of points by slashes. -/
def slashed (text : List Char) : List Char :=
  text.map fun c => if c = '.' then '/' else c

/-- There is no result for an empty name, and none where the end of the replaced range
would lie in front of the name. -/
def relativePathFromCollectionName (collectionName : List Char) : Option (List Char) :=
  if collectionName = [] then none
  else
    match rfind '.' collectionName with
    | none => some collectionName
    | some 0 => none
    | some (last + 1) => some (slashed (collectionName.take last) ++ collectionName.drop last)

/-! ## Files of an archive -/

inductive Extension where
  | fcl
  | fhicl
  | jsn
  | json
  | xml

def Extension.text : Extension → List Char
  | .fcl => ['f', 'c', 'l']
  | .fhicl => ['f', 'h', 'i', 'c', 'l']
  | .jsn => ['j', 's', 'n']
  | .json => ['j', 's', 'o', 'n']
  | .xml => ['x', 'm', 'l']

structure ArchivedFile where
  dir : List Char
  base : List Char
  ext : Extension
  dir_ne_nil : dir ≠ []
  dir_noSlash : '/' ∉ dir
  base_ne_nil : base ≠ []
  base_noSlash : '/' ∉ base

def ArchivedFile.name (file : ArchivedFile) : List Char :=
  file.base ++ '.' :: file.ext.text

/-- The path of a file inside of the archive. -/
def ArchivedFile.path (file : ArchivedFile) : List Char :=
  file.dir ++ '/' :: file.name

/-- What may stand in front of a relative path. -/
def LeadingPath (leading : List Char) : Prop :=
  leading = [] ∨ ∃ parent, leading = parent ++ ['/']

/-- Points stand only in front of the extension, or in front of the point there. -/
def ArchivedFile.Plain (file : ArchivedFile) : Prop :=
  '.' ∉ file.dir ∧ '.' ∉ file.base.dropLast

/-- The file comes back where it was. -/
def ArchivedFile.Restored (file : ArchivedFile) : Prop :=
  ∀ leading, LeadingPath leading →
    relativePathFromCollectionName (collectionNameFromRelativePath (leading ++ file.path)) =
      some file.path

/-- The files have their own collections. -/
def ArchivedFile.Apart (file other : ArchivedFile) : Prop :=
  (file.dir, file.name) ≠ (other.dir, other.name) →
    ∀ leading leading', LeadingPath leading → LeadingPath leading' →
      collectionNameFromRelativePath (leading ++ file.path) ≠
        collectionNameFromRelativePath (leading' ++ other.path)

/-! ## The last part of a path -/

section

variable {name : List Char}

theorem strip_slashes (hne : name ≠ []) (hname : '/' ∉ name) (pre : List Char) :
    (pre ++ name).rdropWhile (· = '/') = pre ++ name := by
  rw [List.rdropWhile_eq_self_iff]
  intro hall
  rw [List.getLast_append_of_ne_nil _ hne]
  intro hslash
  have hlast := List.getLast_mem hne
  rw [of_decide_eq_true hslash] at hlast
  exact hname hlast

theorem take_name (hname : '/' ∉ name) {pre : List Char} (hpre : LeadingPath pre) :
    (pre ++ name).rtakeWhile (· ≠ '/') = name := by
  have hall : ∀ c ∈ name.reverse, decide (c ≠ '/') = true := by
    intro c hc
    exact decide_eq_true fun h => hname (h ▸ List.mem_reverse.1 hc)
  rw [List.rtakeWhile, List.reverse_append, List.takeWhile_append_of_pos hall]
  rcases hpre with rfl | ⟨parent, rfl⟩ <;> simp

theorem drop_name (hname : '/' ∉ name) (parent : List Char) :
    (parent ++ '/' :: name).rdropWhile (· ≠ '/') = parent ++ ['/'] := by
  have hall : ∀ c ∈ name.reverse, decide (c ≠ '/') = true := by
    intro c hc
    exact decide_eq_true fun h => hname (h ▸ List.mem_reverse.1 hc)
  rw [List.rdropWhile, List.reverse_append, List.reverse_cons, List.append_assoc,
    List.dropWhile_append_of_pos hall]
  simp

theorem basename_append (hne : name ≠ []) (hname : '/' ∉ name) {pre : List Char}
    (hpre : LeadingPath pre) : basename (pre ++ name) = name := by
  have hpath : pre ++ name ≠ [] := by simp [hne]
  rw [basename, strip_slashes hne hname, if_neg hpath, if_neg hpath, take_name hname hpre]

theorem dirname_append (hne : name ≠ []) (hname : '/' ∉ name) {dir : List Char}
    (hdir : dir ≠ []) (hslash : '/' ∉ dir) (pre : List Char) :
    dirname (pre ++ dir ++ '/' :: name) = pre ++ dir := by
  have hstripped := strip_slashes hne hname (pre ++ dir ++ ['/'])
  rw [List.append_assoc _ ['/'], List.singleton_append] at hstripped
  have hparent : (pre ++ dir ++ ['/']).rdropWhile (· = '/') = pre ++ dir := by
    rw [List.rdropWhile_concat_pos _ _ _ (by simp), strip_slashes hdir hslash]
  simp only [dirname, hstripped, drop_name hname, hparent]
  rw [if_neg (by simp), if_neg (by simp), if_neg (by simp), if_neg (by simp [hdir])]

end

/-! ## The name of a collection -/

theorem Extension.notMem_text (ext : Extension) : '.' ∉ ext.text ∧ '/' ∉ ext.text := by
  cases ext <;> decide

theorem ArchivedFile.name_ne_nil (file : ArchivedFile) : file.name ≠ [] := by
  simp [ArchivedFile.name]

theorem ArchivedFile.name_noSlash (file : ArchivedFile) : '/' ∉ file.name := by
  have hext := file.ext.notMem_text.2
  simp [ArchivedFile.name, file.base_noSlash, hext]

theorem collectionName_eq (file : ArchivedFile) {leading : List Char}
    (hleading : LeadingPath leading) :
    collectionNameFromRelativePath (leading ++ file.path) = file.dir ++ '.' :: file.name := by
  have hpath : leading ++ file.path = leading ++ file.dir ++ '/' :: file.name := by
    rw [ArchivedFile.path, List.append_assoc]
  have hbase : basename (leading ++ file.path) = file.name := by
    have hfull : leading ++ file.path = (leading ++ file.dir ++ ['/']) ++ file.name := by
      simp [ArchivedFile.path]
    rw [hfull]
    exact basename_append file.name_ne_nil file.name_noSlash (Or.inr ⟨_, rfl⟩)
  have hparent : basename (dirname (leading ++ file.path)) = file.dir := by
    rw [hpath, dirname_append file.name_ne_nil file.name_noSlash file.dir_ne_nil
      file.dir_noSlash, basename_append file.dir_ne_nil file.dir_noSlash hleading]
  have hdots : file.dir ++ ['.'] ++ (file.name ++ ['.']) =
      (file.dir ++ '.' :: file.name) ++ ['.'] := by simp
  rw [collectionNameFromRelativePath, hbase, hparent]
  simp only [List.flatMap_cons, List.flatMap_nil, List.append_nil]
  rw [hdots, List.dropLast_concat]

theorem rfind_append {c : Char} {post : List Char} (hpost : c ∉ post) (pre : List Char) :
    rfind c (pre ++ c :: post) = some pre.length := by
  have hnone : rfind c post = none := by
    induction post with
    | nil => rfl
    | cons d post ih =>
        rw [List.mem_cons, not_or] at hpost
        simp [rfind, ih hpost.2, Ne.symm hpost.1]
  induction pre with
  | nil => simp [rfind, hnone]
  | cons d pre ih => simp [rfind, ih]

/-- The points of the directory and of the file's name become slashes, up to the last
character in front of the extension. -/
theorem relativePath_collection {base dir : List Char} (last : Char) (ext : Extension) :
    relativePathFromCollectionName (dir ++ '.' :: (base ++ [last] ++ '.' :: ext.text)) =
      some (slashed dir ++ '/' :: (slashed base ++ last :: '.' :: ext.text)) := by
  have hname : dir ++ '.' :: (base ++ [last] ++ '.' :: ext.text) =
      (dir ++ '.' :: base ++ [last]) ++ '.' :: ext.text := by simp
  have hsplit : dir ++ '.' :: (base ++ [last] ++ '.' :: ext.text) =
      (dir ++ '.' :: base) ++ last :: '.' :: ext.text := by simp
  have hfind : rfind '.' (dir ++ '.' :: (base ++ [last] ++ '.' :: ext.text)) =
      some ((dir ++ '.' :: base).length + 1) := by
    rw [hname, rfind_append ext.notMem_text.1, List.length_append, List.length_singleton]
  rw [relativePathFromCollectionName, if_neg (by simp), hfind]
  change some _ = _
  rw [hsplit, List.take_left, List.drop_left]
  simp [slashed]

theorem slashed_eq_self_iff {text : List Char} : slashed text = text ↔ '.' ∉ text := by
  induction text with
  | nil => simp [slashed]
  | cons c text ih =>
      rw [slashed, List.map_cons, ← slashed, List.cons.injEq, ih, List.mem_cons, not_or]
      refine and_congr_left fun _ => ?_
      split
      · rename_i hc
        subst hc
        decide
      · rename_i hc
        simpa using Ne.symm hc

theorem length_slashed (text : List Char) : (slashed text).length = text.length :=
  List.length_map ..

theorem restored_iff (file : ArchivedFile) : file.Restored ↔ file.Plain := by
  obtain ⟨base, last, hbase⟩ : ∃ base last, file.base = base ++ [last] :=
    (List.eq_nil_or_concat' file.base).resolve_left file.base_ne_nil
  have hpath : file.path = file.dir ++ '/' :: (base ++ last :: '.' :: file.ext.text) := by
    simp [ArchivedFile.path, ArchivedFile.name, hbase]
  have hrestored : ∀ leading, LeadingPath leading →
      relativePathFromCollectionName (collectionNameFromRelativePath (leading ++ file.path)) =
        some (slashed file.dir ++ '/' :: (slashed base ++ last :: '.' :: file.ext.text)) := by
    intro leading hleading
    rw [collectionName_eq file hleading, ArchivedFile.name, hbase, relativePath_collection]
  rw [ArchivedFile.Plain, hbase, List.dropLast_concat]
  constructor
  · intro h
    have hback := h [] (Or.inl rfl)
    rw [hrestored [] (Or.inl rfl), hpath, Option.some.injEq] at hback
    obtain ⟨hdir, hname⟩ := List.append_inj hback (length_slashed _)
    rw [List.cons.injEq] at hname
    obtain ⟨hbase, -⟩ := List.append_inj hname.2 (length_slashed _)
    exact ⟨slashed_eq_self_iff.1 hdir, slashed_eq_self_iff.1 hbase⟩
  · rintro ⟨hdir, hname⟩ leading hleading
    rw [hrestored leading hleading, hpath, slashed_eq_self_iff.2 hdir,
      slashed_eq_self_iff.2 hname]

/-- Files that come back where they were have collections of their own. -/
theorem apart_of_restored {file other : ArchivedFile} (hfile : file.Restored)
    (hother : other.Restored) : file.Apart other := by
  intro hne leading leading' hleading hleading' hsame
  have hback := hfile leading hleading
  rw [hsame, hother leading' hleading', Option.some.injEq] at hback
  have hname : other.name = file.name := by
    have hlast := congrArg (List.rtakeWhile (· ≠ '/')) hback
    rwa [ArchivedFile.path, ArchivedFile.path, List.append_cons, List.append_cons file.dir,
      take_name other.name_noSlash (Or.inr ⟨_, rfl⟩),
      take_name file.name_noSlash (Or.inr ⟨_, rfl⟩)] at hlast
  have hdir : other.dir = file.dir := by
    rw [ArchivedFile.path, ArchivedFile.path, hname] at hback
    exact List.append_cancel_right hback
  exact hne (by rw [hname, hdir])

/-- All files of an archive come back where they were, from collections of their own, if
and only if no directory has a point and no file has one in front of the last character
before its extension. -/
theorem archive_restored_iff (files : List ArchivedFile) :
    ((∀ file ∈ files, file.Restored) ∧
        ∀ file ∈ files, ∀ other ∈ files, file.Apart other) ↔
      ∀ file ∈ files, file.Plain := by
  constructor
  · rintro ⟨hrestored, -⟩ file hfile
    exact (restored_iff file).1 (hrestored file hfile)
  · intro hplain
    have hrestored : ∀ file ∈ files, file.Restored := by
      intro file hfile
      exact (restored_iff file).2 (hplain file hfile)
    exact ⟨hrestored, fun file hfile other hother =>
      apart_of_restored (hrestored file hfile) (hrestored other hother)⟩

/-- A file `trigger.fcl` of the directory `run.2017`, which comes back in `run/2017`. -/
def datedFile : ArchivedFile where
  dir := ['r', 'u', 'n', '.', '2', '0', '1', '7']
  base := ['t', 'r', 'i', 'g', 'g', 'e', 'r']
  ext := .fcl
  dir_ne_nil := by decide
  dir_noSlash := by decide
  base_ne_nil := by decide
  base_noSlash := by decide

def pointBefore : ArchivedFile where
  dir := ['a', '.', 'b']
  base := ['c']
  ext := .fcl
  dir_ne_nil := by decide
  dir_noSlash := by decide
  base_ne_nil := by decide
  base_noSlash := by decide

def pointBehind : ArchivedFile where
  dir := ['a']
  base := ['b', '.', 'c']
  ext := .fcl
  dir_ne_nil := by decide
  dir_noSlash := by decide
  base_ne_nil := by decide
  base_noSlash := by decide

theorem archive_not_restored :
    ¬ datedFile.Restored ∧ ¬ pointBefore.Apart pointBehind := by
  constructor
  · intro h
    exact absurd (h [] (Or.inl rfl)) (by decide)
  · intro h
    exact h (by decide) [] [] (Or.inl rfl) (Or.inl rfl) (by decide)

end ArtdaqDatabase
