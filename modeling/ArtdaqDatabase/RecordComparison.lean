import ArtdaqDatabase.FhiclText
import ArtdaqDatabase.JsonComparison
import ArtdaqDatabase.OverlayRecord

/-!
# Comparing database records

`operator==` of the overlay classes, with no flag of the compare mask set.  Each writes
the differences it finds to a stream behind a heading and succeeds when nothing was
written; the text of a failure shows both sides, and showing them can throw.
-/

namespace ArtdaqDatabase

open OrderedTable PartialViews

/-! ## Results -/

/-- What a comparison that fails says, which is never nothing. -/
@[ext]
structure Disagreement where
  text : String
  text_ne : text ≠ ""

instance : DecidableEq Disagreement := fun difference other =>
  decidable_of_iff (difference.text = other.text) Disagreement.ext_iff.symm

/-- `operator==` of an overlay class: nothing, or a disagreement. -/
abbrev Comparison := Value → Value → Except Failure (Option Disagreement)

def disagree (heading : String) (hheading : heading ≠ "") (differences : String) :
    Disagreement where
  text := heading ++ differences
  text_ne := fun h => hheading (String.append_eq_empty_iff.1 h).1

/-- The end of an `operator==`: the texts written behind the heading, and a walk that is
made if there are none. -/
def conclude (heading : String) (hheading : heading ≠ "") (texts : List String)
    (walk : Except Failure (Option String)) (closing : Except Failure String) :
    Except Failure (Option Disagreement) := do
  let written := String.join texts
  let difference ← if written = "" then walk else .ok (some written)
  match difference with
  | none => return none
  | some difference =>
      let closing ← closing
      return some (disagree heading hheading (difference ++ closing))

/-- The text written for a member that disagrees. -/
def whenDisagreeing (result : Option Disagreement) (text : Except Failure String) :
    Except Failure String :=
  match result with
  | none => .ok ""
  | some _ => text

def quoted (text : String) : String :=
  quoted_ text '"'

def selfOther (first second : String) : String :=
  " self,other=" ++ first ++ "," ++ second

/-- The debug info at the end of a failure. -/
def debugInfo (gap : String) (toText : Value → Except Failure String) (self other : Value) :
    Except Failure String := do
  let selfText ← toText self
  let otherText ← toText other
  return "\n  Debug info:" ++ "\n  Self  value:" ++ gap ++ selfText ++ "\n  Other value:" ++
    gap ++ otherText

/-! ## Texts -/

def debrace (s : String) : String :=
  match s.toList, s.toList.getLast? with
  | '\x7b' :: inner, some '\x7d' => String.ofList inner.dropLast
  | _, _ => s

def bool_ (value : Bool) : String :=
  if value then "true" else "false"

def Value.getInteger : Value → Except Failure ℤ
  | .integer number => .ok number
  | _ => .error .badGet

/-- `ovlKeyValue::to_string`. -/
def ovlKeyValueToString (key : String) (self : Value) : Except Failure String :=
  JsonWriter.write [(key, self)]

/-- `ovlComment::to_string`. -/
def ovlCommentToString (self : Value) : Except Failure String := do
  let comment ← self.getObject
  let linenum ← valueAt "linenum" comment >>= Value.getInteger
  let text ← stringAt "value" comment
  return "\x7b" ++ quoted "linenum" ++ ":" ++ toString linenum ++ "," ++ quoted "value" ++
    ":" ++ quoted text ++ "\x7d"

/-- `ovlTimeStamp::to_string`. -/
def ovlTimeStampToString (key : String) (self : Value) : Except Failure String := do
  let timestamp ← self.getString
  return "\x7b" ++ quoted key ++ ":" ++ quoted timestamp ++ "\x7d"

/-- `ovlKeyValueTimeStamp::to_string`, where `_removed` is made from `assigned`. -/
def ovlKeyValueTimeStampToString (hasRemoved : Bool) (self : Value) :
    Except Failure String := do
  let entry ← self.getObject
  let name ← stringAt "name" entry
  let assigned ← valueAt "assigned" entry >>= ovlTimeStampToString "assigned"
  return "\x7b" ++ quoted "name" ++ ":" ++ quoted name ++ "," ++ debrace assigned ++
    (if hasRemoved then "," ++ debrace assigned else "") ++ "\x7d"

/-- The entries of a list; the comma behind the last one is written over. -/
def entriesText (toText : Value → Except Failure String) (entries : List Value) :
    Except Failure String := do
  let texts ← entries.mapM toText
  return String.intercalate "," (texts.map fun text => "\n" ++ text)

/-- `ovlFixedList::to_string`. -/
def ovlFixedListToString
    (key : String) (elementToString : Value → Except Failure String) (self : Value) :
    Except Failure String := do
  let entries ← self.getArray >>= entriesText elementToString
  return "\x7b" ++ quoted key ++ ": [" ++ entries ++ "\n]\x7d"

/-- `ovlMovableList::to_string`. -/
def ovlMovableListToString
    (key : String) (elementToString : Value → Except Failure String) (self : Value) :
    Except Failure String := do
  let lists ← self.getObject
  let active ← arrayAt "active" lists >>= entriesText elementToString
  let history ← arrayAt "history" lists >>= entriesText elementToString
  return "\x7b" ++ quoted key ++ ": \x7b" ++ quoted "active" ++ ": [" ++ active ++ "\n]," ++
    quoted "history" ++ ": [" ++ history ++ "\n]\n\x7d\n\x7d"

/-- `ovlUpdate::to_string`. -/
def ovlUpdateToString (self : Value) : Except Failure String := do
  let update ← self.getObject
  let name ← stringAt "event" update
  let timestamp ← valueAt "timestamp" update >>= ovlTimeStampToString "timestamp"
  let what ← valueAt "value" update >>= ovlKeyValueTimeStampToString false
  return "\x7b" ++ quoted "event" ++ ":" ++ quoted name ++ "," ++ debrace timestamp ++ "," ++
    debrace what ++ "\x7d"

/-- `ovlBookkeeping::to_string`. -/
def ovlBookkeepingToString (self : Value) : Except Failure String := do
  let bookkeeping ← self.getObject
  let isReadonly ← boolAt "isreadonly" bookkeeping
  let isDeleted ← boolAt "isdeleted" bookkeeping
  let created ← valueAt "created" bookkeeping >>= ovlTimeStampToString "created"
  let updates ← arrayAt "updates" bookkeeping >>= entriesText ovlUpdateToString
  return "\x7b" ++ quoted "bookkeeping" ++ ": \x7b\n" ++ quoted "isreadonly" ++ ":" ++
    bool_ isReadonly ++ ",\n" ++ quoted "isdeleted" ++ ":" ++ bool_ isDeleted ++ ",\n" ++
    debrace created ++ ",\n" ++ quoted "updates" ++ ": [" ++ updates ++ "\n]\n\x7d\n\x7d"

/-- `ovlOrigin::to_string`. -/
def ovlOriginToString (self : Value) : Except Failure String := do
  let origin ← self.getObject
  let format ← stringAt "format" origin
  let name ← stringAt "name" origin
  let source ← stringAt "source" origin
  let created ← valueAt "created" origin >>= ovlTimeStampToString "created"
  let rawdata ← valueAt "rawdata" origin >>=
    ovlFixedListToString "rawdata" (ovlKeyValueToString "value")
  return "\x7b" ++ quoted "origin" ++ ":\x7b\n" ++ quoted "format" ++ ":" ++ quoted format ++
    ",\n" ++ quoted "name" ++ ":" ++ quoted name ++ ",\n" ++ quoted "source" ++ ":" ++
    quoted source ++ ",\n" ++ debrace created ++ ",\n" ++ debrace rawdata ++ "\n\x7d\x7d"

/-! ## The comparisons -/

section Comparisons

variable {δ : Type} [DecidableEq δ] (number : String → Option δ)

/-- `ovlKeyValue::operator==` of two values under one key, with the `to_string` of the
class. -/
def ovlKeyValueEquals (key : String) (toText : Value → Except Failure String) : Comparison :=
  fun self other => do
    if valuesEqual number self other then
      return none
    else
      let selfText ← toText self
      let otherText ← toText other
      return some (disagree "\n  Values disagree." (by decide)
        ("\n  Key: " ++ quoted key ++ "\n  Self  value: " ++ selfText ++
          "\n  Other value: " ++ otherText))

def ovlKeyValueWithMaskEquals (key : String) : Comparison :=
  ovlKeyValueEquals number key (ovlKeyValueToString key)

def ovlStringKeyValueEquals (key : String) : Comparison :=
  ovlKeyValueEquals number key (ovlKeyValueToString key)

def ovlTimeStampEquals (key : String) : Comparison :=
  ovlKeyValueEquals number key (ovlTimeStampToString key)

def ovlCommentEquals : Comparison :=
  ovlKeyValueEquals number "value" ovlCommentToString

def ovlIdEquals : Comparison :=
  ovlKeyValueEquals number "_id" (ovlKeyValueToString "_id")

/-- The result for two overlaid members. -/
def memberResult (key : String) (compare : Comparison) (self other : Object) :
    Except Failure (Option Disagreement) := do
  let first ← valueAt key self
  let second ← valueAt key other
  compare first second

/-- What is written about two members that an accessor reads. -/
def readDifference {α : Type} [DecidableEq α] (read : Object → Except Failure α)
    (heading : String) (toText : α → String) (self other : Object) :
    Except Failure String := do
  let first ← read self
  let second ← read other
  return if first = second then "" else heading ++ selfOther (toText first) (toText second)

def timestampDifference (key : String) (self other : Object) : Except Failure String := do
  let result ← memberResult key (ovlTimeStampEquals number key) self other
  whenDisagreeing result do
    let first ← stringAt key self
    let second ← stringAt key other
    return "\n  Timestamps are different:" ++ selfOther (quoted first) (quoted second)

def verdictText (heading : String) (result : Option Disagreement) : String :=
  match result with
  | none => ""
  | some difference => heading ++ difference.text

def sizeDifference (heading : String) (entries others : List Value) : String :=
  if entries.length = others.length then ""
  else heading ++ selfOther (toString entries.length) (toString others.length)

/-- `_removed` of the one side is compared with `_assigned` of the other, and is made from
`assigned` itself. -/
def removedResult (hasRemoved : Bool) (self other : Object) :
    Except Failure (Option Disagreement) :=
  if hasRemoved then memberResult "assigned" (ovlTimeStampEquals number "assigned") self other
  else .ok none

/-- `ovlKeyValueTimeStamp::operator==`. -/
def ovlKeyValueTimeStampEquals (hasRemoved : Bool) (key : String) : Comparison :=
  fun self other => do
    let entry ← self.getObject
    let otherEntry ← other.getObject
    let names ← readDifference (stringAt "name") ("\n  " ++ key ++ "names are different:")
      quoted entry otherEntry
    let assigned ← memberResult "assigned" (ovlTimeStampEquals number "assigned") entry
      otherEntry
    let removed ← removedResult number hasRemoved entry otherEntry
    conclude ("\n" ++ key ++ " records disagree.") (by simp [String.append_eq_empty_iff])
      [names, verdictText "\n  Assigned timestamps are different:\n  " assigned,
        verdictText "\n  Assigned timestamps are different:\n  " removed]
      (.ok none) (debugInfo " " (ovlKeyValueTimeStampToString hasRemoved) self other)

/-- The predicate of `std::equal`: what it writes about two elements that disagree. -/
def elementDifference (compare : Comparison)
    (text : Disagreement → Value → Value → Except Failure String) (first second : Value) :
    Except Failure (Option String) := do
  match ← compare first second with
  | none => return none
  | some difference => return some (← text difference first second)

/-- `ovlFixedList::operator==`. -/
def ovlFixedListEquals (key : String) (element : Comparison)
    (elementToString : Value → Except Failure String) : Comparison :=
  fun self other => do
    let entries ← self.getArray
    let others ← other.getArray
    conclude "\nEntry lists disagree." (by decide)
      [sizeDifference ("\n  Entry " ++ key ++ " have different size:") entries others]
      (firstDifference (elementDifference element fun difference _ _ => .ok difference.text)
        entries others)
      do
        let info ← debugInfo " " (ovlFixedListToString key elementToString) self other
        return "\n  Entry lists are different" ++ info

/-- `ovlMovableList::operator==`: the history is not compared. -/
def ovlMovableListEquals (key : String) (element : Comparison)
    (elementToString : Value → Except Failure String) : Comparison :=
  fun self other => do
    let lists ← self.getObject
    let otherLists ← other.getObject
    let active ← arrayAt "active" lists
    let otherActive ← arrayAt "active" otherLists
    conclude ("\n " ++ key ++ "nodes disagree.") (by simp [String.append_eq_empty_iff])
      [sizeDifference ("\n  Different active " ++ key ++ " count:") active otherActive]
      (firstDifference
        (elementDifference element fun _ first second => do
          let firstText ← elementToString first
          let secondText ← elementToString second
          return "\n  " ++ key ++ " different:" ++ selfOther firstText secondText)
        active otherActive)
      (debugInfo "\n" (ovlMovableListToString key elementToString) self other)

/-- `ovlDocument::operator==`: `search` is not compared. -/
def ovlDocumentEquals : Comparison := fun self other => do
  let document ← self.getObject
  let otherDocument ← other.getObject
  let data ← memberResult "data" (ovlKeyValueWithMaskEquals number "data") document
    otherDocument
  let metadata ← memberResult "metadata" (ovlKeyValueWithMaskEquals number "metadata") document
    otherDocument
  conclude "\nUser data disagree." (by decide)
    [verdictText "\n  Data are different:\n  " data,
      verdictText "\n  Metadata are different:\n  " metadata]
    (.ok none) (.ok "")

/-- `ovlOrigin::operator==`. -/
def ovlOriginEquals : Comparison := fun self other => do
  let origin ← self.getObject
  let otherOrigin ← other.getObject
  let formats ← readDifference (stringAt "format") "\n  Formats are different:" quoted origin
    otherOrigin
  let names ← readDifference (stringAt "name") "\n  File names are different:" quoted origin
    otherOrigin
  let sources ← readDifference (stringAt "source") "\n  Sources are different:" quoted origin
    otherOrigin
  let created ← timestampDifference number "created" origin otherOrigin
  let rawdata ← memberResult "rawdata"
    (ovlFixedListEquals "rawdata" (ovlStringKeyValueEquals number "value")
      (ovlKeyValueToString "value")) origin otherOrigin
  conclude "\nOrigin nodes disagree." (by decide)
    [formats, names, sources, created, verdictText "" rawdata]
    (.ok none) (debugInfo " " ovlOriginToString self other)

/-- `ovlUpdate::operator==`. -/
def ovlUpdateEquals : Comparison := fun self other => do
  let update ← self.getObject
  let otherUpdate ← other.getObject
  let timestamps ← timestampDifference number "timestamp" update otherUpdate
  let names ← readDifference (stringAt "event") "\n  Events are different:" quoted update
    otherUpdate
  let what ← memberResult "value" (ovlKeyValueTimeStampEquals number false "value") update
    otherUpdate
  let whatText ← whenDisagreeing what do
    let first ← valueAt "value" update >>= ovlKeyValueTimeStampToString false
    let second ← valueAt "value" otherUpdate >>= ovlKeyValueTimeStampToString false
    return "\n  Event data are different:" ++ selfOther first second
  conclude "\nUpdate events disagree." (by decide) [timestamps, names, whatText] (.ok none)
    (.ok "")

/-- `ovlBookkeeping::operator==`. -/
def ovlBookkeepingEquals : Comparison := fun self other => do
  let bookkeeping ← self.getObject
  let otherBookkeeping ← other.getObject
  let deleted ← readDifference (boolAt "isdeleted") "\n  isdeleted flags are different:" bool_
    bookkeeping otherBookkeeping
  let readonly ← readDifference (boolAt "isreadonly") "\n  isreadonly flags are different:"
    bool_ bookkeeping otherBookkeeping
  let created ← timestampDifference number "created" bookkeeping otherBookkeeping
  let updates ← arrayAt "updates" bookkeeping
  let otherUpdates ← arrayAt "updates" otherBookkeeping
  conclude "\nBookkeeping nodes disagree." (by decide)
    [deleted, readonly, created,
      sizeDifference "\n  Record update histories have different size:" updates otherUpdates]
    (firstDifference
      (elementDifference (ovlUpdateEquals number) fun _ first second => do
        let firstText ← ovlUpdateToString first
        let secondText ← ovlUpdateToString second
        return "\n  Record update histories are different:" ++ selfOther firstText secondText)
      updates otherUpdates)
    (debugInfo "\n" ovlBookkeepingToString self other)

def entryListEquals (key : String) : Comparison :=
  ovlFixedListEquals key (ovlKeyValueTimeStampEquals number false "value")
    (ovlKeyValueTimeStampToString false)

/-- The sections in the order in which they are compared. -/
def sectionComparisons : List (String × Comparison) :=
  [("document", ovlDocumentEquals number),
    ("comments", ovlFixedListEquals "comments" (ovlCommentEquals number) ovlCommentToString),
    ("origin", ovlOriginEquals number),
    ("version", ovlStringKeyValueEquals number "version"),
    ("collection", ovlStringKeyValueEquals number "collection"),
    ("configtype", ovlStringKeyValueEquals number "configtype"),
    ("configurations", entryListEquals number "configurations"),
    ("changelog", ovlStringKeyValueEquals number "changelog"),
    ("bookkeeping", ovlBookkeepingEquals number),
    ("_id", ovlIdEquals number),
    ("entities", entryListEquals number "entities"),
    ("runs", entryListEquals number "runs"),
    ("aliases", ovlMovableListEquals "aliases" (ovlKeyValueTimeStampEquals number true "value")
      (ovlKeyValueTimeStampToString true)),
    ("attachments", ovlFixedListEquals "attachments"
      (ovlKeyValueEquals number "value" (ovlKeyValueToString "value"))
      (ovlKeyValueToString "value"))]

/-- `ovlDatabaseRecord::operator==`. -/
def ovlDatabaseRecordEquals (self other : Object) : Except Failure (Option Disagreement) := do
  let results ← (sectionComparisons number).mapM fun (key, compare) =>
    memberResult key compare self other
  conclude "\nDatabase records disagree." (by decide) (results.map (verdictText "")) (.ok none)
    (.ok "")

end Comparisons

end ArtdaqDatabase
