import ArtdaqDatabase.JsonWriter

/-!
# Decimals between the reader and the writer

A decimal is kept here as the number that was read, and what the writer prints for it is
another text.  A number that is written and read again is the one that the printed text
stands for, so it can differ from the first, as the writer prints few digits.
-/

namespace ArtdaqDatabase

open OrderedTable Scanner

/-- The floating point numbers: the number that digits are read as, under a text of its own,
and the digits that are printed for it. -/
structure DecimalFormat where
  number : List Char → String
  print : String → String
  reads_print : ∀ digits, ReadsNumber (print (number digits)).toList

/-- Every number is one and a half. -/
def oneNumber : DecimalFormat :=
  ⟨fun _ => "1.5", id, fun _ => readsNumber_oneAndAHalf⟩

mutual

/-- The decimals as they are printed. -/
def Value.inPrint (print : String → String) : Value → Value
  | .object members => .object (membersInPrint print members)
  | .array values => .array (valuesInPrint print values)
  | .string text => .string text
  | .decimal number => .decimal (print number)
  | .integer number => .integer number
  | .boolean flag => .boolean flag

def valuesInPrint (print : String → String) : List Value → List Value
  | [] => []
  | v :: values => v.inPrint print :: valuesInPrint print values

def membersInPrint (print : String → String) : List (String × Value) → List (String × Value)
  | [] => []
  | (key, v) :: members => (key, v.inPrint print) :: membersInPrint print members

end

namespace DecimalFormat

variable (d : DecimalFormat)

/-- `JsonReader::read`. -/
def read (text : String) : Except Failure (Option Object) :=
  JsonReader.read d.number text

/-- `JsonWriter::write`. -/
def write (ast : Object) : Except Failure String :=
  JsonWriter.write (membersInPrint d.print ast)

/-- The text of an object. -/
def text (ast : Object) : String :=
  writeValue (.object (membersInPrint d.print ast))

/-- A value that was printed and read again. -/
def reread (v : Value) : Value :=
  (v.inPrint d.print).reread d.number

/-- The members of an object that was printed and read again. -/
def rereadObject (ast : Object) : Object :=
  rereadMembers d.number (membersInPrint d.print ast)

/-- An object that can be printed and read again. -/
def Prints (ast : Object) : Prop :=
  membersPrintable (membersInPrint d.print ast)

end DecimalFormat

/-! ## Members -/

theorem membersInPrint_eq_map (print : String → String) (members : List (String × Value)) :
    membersInPrint print members = members.map fun m => (m.1, m.2.inPrint print) := by
  induction members with
  | nil => rfl
  | cons m members ih => rw [membersInPrint, ih, List.map_cons]

theorem valuesInPrint_eq_map (print : String → String) (values : List Value) :
    valuesInPrint print values = values.map fun v => v.inPrint print := by
  induction values with
  | nil => rfl
  | cons v values ih => rw [valuesInPrint, ih, List.map_cons]

theorem rereadMembers_eq_map
    (decimalText : List Char → String) (members : List (String × Value)) :
    rereadMembers decimalText members = members.map fun m => (m.1, m.2.reread decimalText) := by
  induction members with
  | nil => rfl
  | cons m members ih => rw [rereadMembers, ih, List.map_cons]

/-- A number is never read as a text or as an object. -/
theorem rereadNumber_scalar (decimalText : List Char → String) (number : String) :
    (∀ text, rereadNumber decimalText number ≠ .string text) ∧
      ∀ members, rereadNumber decimalText number ≠ .object members := by
  have hyields : Yields (numberRule decimalText (Value.boolean <$> bool))
      fun v => (∀ text, v ≠ .string text) ∧ ∀ members, v ≠ .object members :=
    (Yields.map fun _ _ _ _ => by simp).orElse
      ((Yields.map fun _ _ _ _ => by simp).orElse (Yields.map fun _ _ _ _ => by simp))
  unfold rereadNumber
  split
  · rename_i v rest h
    exact hyields _ v rest h
  · simp

namespace DecimalFormat

variable (d : DecimalFormat)

theorem rereadObject_eq_map (ast : Object) :
    d.rereadObject ast = ast.map fun m => (m.1, d.reread m.2) := by
  rw [rereadObject, rereadMembers_eq_map, membersInPrint_eq_map, List.map_map]
  rfl

theorem lookup_rereadObject (key : String) (ast : Object) :
    lookup key (d.rereadObject ast) = (lookup key ast).map d.reread := by
  rw [rereadObject_eq_map]
  induction ast with
  | nil => rfl
  | cons m ast ih =>
      by_cases hm : m.1 = key
      · simp [lookup, hm]
      · simp [lookup, hm, ih]

theorem reread_eq_string {v : Value} {text : String} :
    d.reread v = .string text ↔ v = .string text := by
  cases v with
  | decimal number => simp [reread, Value.inPrint, Value.reread, rereadNumber_scalar]
  | _ => simp [reread, Value.inPrint, Value.reread]

theorem reread_eq_object {v : Value} {members : Object} :
    d.reread v = .object members ↔ ∃ ast, v = .object ast ∧ d.rereadObject ast = members := by
  cases v with
  | decimal number => simp [reread, Value.inPrint, Value.reread, rereadNumber_scalar]
  | _ => simp [reread, Value.inPrint, Value.reread, rereadObject]

/-- Texts are read as they were printed. -/
theorem stringAt_rereadObject {key text : String} {ast : Object} :
    stringAt key (d.rereadObject ast) = .ok text ↔ stringAt key ast = .ok text := by
  simp [lookup_rereadObject, reread_eq_string]

theorem rereadObject_eq_nil {ast : Object} : d.rereadObject ast = [] ↔ ast = [] := by
  rw [rereadObject_eq_map, List.map_eq_nil_iff]

/-- A member that is no decimal is read as it was printed. -/
theorem rereadObject_set
    {key : String} {v : Value} (hv : d.reread v = v) (ast : Object) :
    d.rereadObject (set key v ast) = set key v (d.rereadObject ast) := by
  rw [rereadObject_eq_map, rereadObject_eq_map]
  induction ast with
  | nil => simp [OrderedTable.set, hv]
  | cons m ast ih =>
      by_cases hm : m.1 = key
      · simp [OrderedTable.set, hm, hv]
      · simp [OrderedTable.set, hm, ih]

theorem prints_iff {ast : Object} :
    d.Prints ast ↔
      ∀ m ∈ ast, isRawText m.1.toList = true ∧ (m.2.inPrint d.print).Printable := by
  rw [Prints, membersPrintable_iff, membersInPrint_eq_map, List.forall_mem_map]

theorem Prints.set {d : DecimalFormat} {ast : Object} (hast : d.Prints ast)
    (key : String) (v : Value) (hkey : isRawText key.toList = true)
    (hv : (v.inPrint d.print).Printable) : d.Prints (set key v ast) := by
  rw [prints_iff] at hast ⊢
  intro m hm
  rcases mem_set hm with rfl | hm
  · exact ⟨hkey, hv⟩
  · exact hast m hm

/-! ## Reading -/

/-- What was printed is read up to the digits that were printed. -/
theorem read_text {ast : Object} (hast : d.Prints ast) :
    d.read (d.text ast) = .ok (some (d.rereadObject ast)) :=
  read_writeValue_reread d.number hast

theorem write_eq_ok {ast : Object} (hne : ast ≠ []) : d.write ast = .ok (d.text ast) := by
  apply JsonWriter.write_ok
  rw [membersInPrint_eq_map]
  simpa using hne

/-- What was read can be printed. -/
theorem prints_of_read {text : String} {ast : Object} (h : d.read text = .ok (some ast)) :
    d.Prints ast := by
  have hyields : ∀ depth, Yields (valueRule d.number depth)
      fun v => (v.inPrint d.print).Printable := by
    apply yields_valueRule_of
    · intro members hmembers
      exact d.prints_iff.2 hmembers
    · intro values hvalues
      rw [Value.inPrint, Value.Printable, valuesPrintable_iff, valuesInPrint_eq_map,
        List.forall_mem_map]
      exact hvalues
    · exact fun _ htext => htext
    · exact fun _ hn => hn
    · exact d.reads_print
    · exact fun _ => trivial
  unfold read JsonReader.read at h
  rw [bind_eq_ok] at h
  obtain ⟨u, -, h⟩ := h
  simp only [pure, Except.pure, Except.ok.injEq, Option.map_eq_some_iff] at h
  obtain ⟨⟨members, rest⟩, hrun, rfl⟩ := h
  exact hyields (text.length + 1) text.toList (.object members) rest
    (valueRule_of_objectRule d.number hrun)

theorem prints_reread {ast : Object} (hast : d.Prints ast) : d.Prints (d.rereadObject ast) :=
  d.prints_of_read (d.read_text hast)

/-- The texts of an object that can be printed have the form that the reader produces. -/
theorem raw_of_stringAt {key text : String} {ast : Object} (hast : d.Prints ast)
    (h : stringAt key ast = .ok text) : isRawText text.toList = true := by
  have hmem := mem_of_lookup (stringAt_eq_ok.1 h)
  exact (d.prints_iff.1 hast _ hmem).2

theorem prints_of_objectAt {key : String} {ast members : Object} (hast : d.Prints ast)
    (h : objectAt key ast = .ok members) : d.Prints members := by
  have hmem := mem_of_lookup (objectAt_eq_ok.1 h)
  exact (d.prints_iff.1 hast _ hmem).2

end DecimalFormat

end ArtdaqDatabase
