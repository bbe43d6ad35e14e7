import ArtdaqDatabase.JsonWriter
import ArtdaqDatabase.SearchIndex

/-!
# Documents that are read again

A printed tree is read back with its decimals as the reader takes them: as numbers,
not always as decimals.  The index looks at names, texts and lists, which are the
same, so it takes the document that is read back for the document itself.
-/

namespace ArtdaqDatabase

open OrderedTable InPlaceUpdate Scanner

section Reread

variable (decimalText : List Char → String)

/-! ## Access to what is read back -/

/-- A number is neither a text nor a list nor an object. -/
def Value.IsNumber : Value → Prop
  | .decimal _ | .integer _ | .boolean _ => True
  | _ => False

theorem rereadNumber_isNumber (text : String) : (rereadNumber decimalText text).IsNumber := by
  have hnumber : Yields (numberRule decimalText (Value.boolean <$> bool)) Value.IsNumber :=
    Yields.orElse (Yields.map fun _ _ _ _ => True.intro) <|
      Yields.orElse (Yields.map fun _ _ _ _ => True.intro) (Yields.map fun _ _ _ _ => True.intro)
  unfold rereadNumber
  split
  · rename_i v rest hread
    exact hnumber _ v rest hread
  · exact True.intro

theorem rereadValues_eq (values : List Value) :
    rereadValues decimalText values = values.map (Value.reread decimalText) := by
  induction values with
  | nil => rfl
  | cons v values ih => rw [rereadValues, List.map_cons, ih]

theorem lookup_rereadMembers (key : String) (o : Object) :
    lookup key (rereadMembers decimalText o) = (lookup key o).map (Value.reread decimalText) := by
  induction o with
  | nil => rfl
  | cons m o ih =>
      obtain ⟨name, v⟩ := m
      rw [rereadMembers, lookup, lookup]
      split
      · rfl
      · exact ih

theorem getObject_reread (v : Value) :
    (v.reread decimalText).getObject = v.getObject.map (rereadMembers decimalText) := by
  cases v with
  | decimal text =>
      have hnumber := rereadNumber_isNumber decimalText text
      rw [Value.reread]
      cases hreread : rereadNumber decimalText text with
      | object | array | string => simp [hreread, Value.IsNumber] at hnumber
      | _ => rfl
  | _ => rfl

theorem getArray_reread (v : Value) :
    (v.reread decimalText).getArray = v.getArray.map (rereadValues decimalText) := by
  cases v with
  | decimal text =>
      have hnumber := rereadNumber_isNumber decimalText text
      rw [Value.reread]
      cases hreread : rereadNumber decimalText text with
      | object | array | string => simp [hreread, Value.IsNumber] at hnumber
      | _ => rfl
  | _ => rfl

theorem getString_reread (v : Value) : (v.reread decimalText).getString = v.getString := by
  cases v with
  | decimal text =>
      have hnumber := rereadNumber_isNumber decimalText text
      rw [Value.reread]
      cases hreread : rereadNumber decimalText text with
      | object | array | string => simp [hreread, Value.IsNumber] at hnumber
      | _ => rfl
  | _ => rfl

theorem valueAt_reread (key : String) (o : Object) :
    valueAt key (rereadMembers decimalText o) = (valueAt key o).map (Value.reread decimalText) := by
  rw [valueAt, valueAt, lookup_rereadMembers]
  cases lookup key o with
  | none => rfl
  | some v => rfl

theorem objectAt_reread (key : String) (o : Object) :
    objectAt key (rereadMembers decimalText o) =
      (objectAt key o).map (rereadMembers decimalText) := by
  rw [objectAt, objectAt, valueAt_reread]
  cases valueAt key o with
  | error e => rfl
  | ok v => exact getObject_reread decimalText v

theorem arrayAt_reread (key : String) (o : Object) :
    arrayAt key (rereadMembers decimalText o) = (arrayAt key o).map (rereadValues decimalText) := by
  rw [arrayAt, arrayAt, valueAt_reread]
  cases valueAt key o with
  | error e => rfl
  | ok v => exact getArray_reread decimalText v

theorem stringAt_reread (key : String) (o : Object) :
    stringAt key (rereadMembers decimalText o) = stringAt key o := by
  rw [stringAt, stringAt, valueAt_reread]
  cases valueAt key o with
  | error e => rfl
  | ok v => exact getString_reread decimalText v

theorem nestedArrayAt_reread (key inner : String) (o : Object) :
    (objectAt key (rereadMembers decimalText o) >>= arrayAt inner) =
      (objectAt key o >>= arrayAt inner).map (rereadValues decimalText) := by
  rw [objectAt_reread]
  cases objectAt key o with
  | error e => rfl
  | ok p => exact arrayAt_reread decimalText inner p

/-- A text in an entry of a list. -/
theorem entryText_reread (key : String) (entry : Value) :
    ((entry.reread decimalText).getObject >>= stringAt key) = (entry.getObject >>= stringAt key) := by
  rw [getObject_reread]
  cases entry.getObject with
  | error e => rfl
  | ok o => exact stringAt_reread decimalText key o

theorem nameOf_reread (entry : Value) : nameOf (entry.reread decimalText) = nameOf entry :=
  entryText_reread decimalText "name" entry

/-! ## The index -/

theorem forEachName_reread (entries : List Value) (act : String → IndexM Unit) :
    forEachName (rereadValues decimalText entries) act = forEachName entries act := by
  rw [rereadValues_eq]
  induction entries with
  | nil => rfl
  | cons entry entries ih =>
      change ((lift (nameOf (entry.reread decimalText)) >>= act) >>= fun _ =>
        forEachName (entries.map (Value.reread decimalText)) act) = _
      rw [nameOf_reread, ih]
      rfl

theorem forEachConfiguration_reread
    (configs : List Value) (act actAssigned : String → String → IndexM Unit) (ouid : String) :
    forEachConfiguration (rereadValues decimalText configs) act actAssigned ouid =
      forEachConfiguration configs act actAssigned ouid := by
  rw [rereadValues_eq]
  induction configs with
  | nil => rfl
  | cons config configs ih =>
      change ((do
        let configuration ← lift (nameOf (config.reread decimalText))
        act ouid configuration
        let assigned ← lift ((config.reread decimalText).getObject >>= stringAt "assigned")
        actAssigned assigned configuration : IndexM Unit) >>= fun _ =>
          forEachConfiguration (configs.map (Value.reread decimalText)) act actAssigned ouid) = _
      rw [nameOf_reread, entryText_reread, ih]
      rfl

theorem lift_map_bind {α β γ : Type} (x : Except Failure α) (f : α → β) (g : β → IndexM γ) :
    (lift (x.map f) >>= g) = (lift x >>= fun a => g (f a)) := by
  cases x <;> rfl

theorem addDocument_reread (document : Object) (ouid : String) :
    addDocument (rereadMembers decimalText document) ouid = addDocument document ouid := by
  simp only [addDocument, stringAt_reread, arrayAt_reread, nestedArrayAt_reread, lift_map_bind,
    forEachName_reread, forEachConfiguration_reread]

theorem removeDocument_reread (document : Object) (ouid : String) :
    removeDocument (rereadMembers decimalText document) ouid = removeDocument document ouid := by
  simp only [removeDocument, stringAt_reread, arrayAt_reread, nestedArrayAt_reread, lift_map_bind,
    forEachName_reread, forEachConfiguration_reread]

end Reread

end ArtdaqDatabase
