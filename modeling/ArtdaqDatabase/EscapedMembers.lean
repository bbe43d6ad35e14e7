import ArtdaqDatabase.FhiclText
import ArtdaqDatabase.JsonWriter

/-!
# Escaped texts in a document

A text is escaped before it becomes the value of a member, printed between quotes,
scanned again and then restored.  The scanner takes an escape and the character behind
it together, so a text that ends in backslashes or has quotes still ends where it did.
-/

namespace ArtdaqDatabase

theorem membersPrintable_append {members more : List (String × Value)} :
    membersPrintable (members ++ more) ↔ membersPrintable members ∧ membersPrintable more := by
  simp [membersPrintable_iff, or_imp, forall_and]
  tauto

/-- A string stands in the tree that is read where it stood in the tree that was printed. -/
theorem membersRereadAs_string {before after reread : List (String × Value)} {key text : String}
    (h : membersRereadAs (before ++ (key, .string text) :: after) reread) :
    ∃ before' after', reread = before' ++ (key, .string text) :: after' ∧
      membersRereadAs before before' ∧ membersRereadAs after after' := by
  induction before generalizing reread with
  | nil =>
      cases reread with
      | nil => exact absurd h (by simp [membersRereadAs])
      | cons m reread =>
          obtain ⟨key', w⟩ := m
          obtain ⟨rfl, hw, hafter⟩ := h
          cases w with
          | string text' =>
              have htext : text = text' := hw
              exact ⟨[], reread, by rw [htext]; rfl, trivial, hafter⟩
          | object | array | decimal | integer | boolean => exact absurd hw (by simp [Value.RereadAs])
  | cons m before ih =>
      cases reread with
      | nil => exact absurd h (by simp [membersRereadAs])
      | cons m' reread =>
          obtain ⟨hkey, hvalue, hrest⟩ := h
          obtain ⟨before', after', rfl, hbefore, hafter⟩ := ih hrest
          exact ⟨m' :: before', after', rfl, ⟨hkey, hvalue, hbefore⟩, hafter⟩

/-- A member with an escaped text, between any other members, comes back with a raw
string that restores to the text. -/
theorem toJsonString_write_read (decimalText : List Char → String) (text : String)
    {before after : List (String × Value)} {key : String}
    (hbefore : membersPrintable before) (hkey : isRawText key.toList = true)
    (hafter : membersPrintable after) :
    fromJsonString (toJsonString text) = text ∧
      ∃ before' raw after',
        (JsonWriter.write (before ++ (key, .string (toJsonString text)) :: after) >>=
            JsonReader.read decimalText) =
          .ok (some (before' ++ (key, .string raw) :: after')) ∧
        fromJsonString raw = text ∧
        membersRereadAs before before' ∧ membersRereadAs after after' := by
  have hrestored := fromJsonString_toJsonString text
  have hprintable : membersPrintable (before ++ (key, .string (toJsonString text)) :: after) :=
    membersPrintable_append.2 ⟨hbefore, hkey, isRawText_toJsonString text, hafter⟩
  obtain ⟨reread, hreread, hread⟩ := reread_writeValue decimalText hprintable
  obtain ⟨before', after', rfl, hbefore', hafter'⟩ := membersRereadAs_string hreread
  refine ⟨hrestored, before', toJsonString text, after', ?_, hrestored, hbefore', hafter'⟩
  rw [JsonWriter.write_ok (by simp)]
  exact hread

theorem toJsonString_write_read_backslashes :
    fromJsonString (toJsonString "\"\\\\\"\\") = "\"\\\\\"\\" ∧
      ∃ before' raw after',
        (JsonWriter.write ([] ++ ("text", .string (toJsonString "\"\\\\\"\\")) ::
              [("next", .integer 1)]) >>= JsonReader.read String.ofList) =
          .ok (some (before' ++ ("text", .string raw) :: after')) ∧
        fromJsonString raw = "\"\\\\\"\\" ∧
        membersRereadAs [] before' ∧ membersRereadAs [("next", .integer 1)] after' :=
  toJsonString_write_read String.ofList "\"\\\\\"\\" trivial (by decide)
    ⟨by decide, ⟨by decide, by decide⟩, trivial⟩

end ArtdaqDatabase
