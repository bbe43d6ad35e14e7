import ArtdaqDatabase.JsonReading
import ArtdaqDatabase.JsonDocument

/-!
# Reading back what was written

The writer puts every member and value on a line of its own, with the raw text of
a string between its quotes.  The reader returns the tree that was written, as
long as the strings have the form that it produces itself.  A decimal is printed
from a rounded text, so it may come back as another number.
-/

namespace ArtdaqDatabase

open Scanner

mutual

/-- Strings are raw text, numbers are integers in range. -/
def Value.Readable : Value → Prop
  | .object members => membersReadable members
  | .array values => valuesReadable values
  | .string text => isRawText text.toList = true
  | .decimal _ => False
  | .integer number => InRange number
  | .boolean _ => True

def valuesReadable : List Value → Prop
  | [] => True
  | v :: values => v.Readable ∧ valuesReadable values

def membersReadable : List (String × Value) → Prop
  | [] => True
  | (key, v) :: members =>
      isRawText key.toList = true ∧ v.Readable ∧ membersReadable members

end

mutual

def Value.decidableReadable : (v : Value) → Decidable v.Readable
  | .object members => decidableMembersReadable members
  | .array values => decidableValuesReadable values
  | .string text => inferInstanceAs (Decidable (isRawText text.toList = true))
  | .decimal _ => instDecidableFalse
  | .integer number => inferInstanceAs (Decidable (InRange number))
  | .boolean _ => instDecidableTrue

def decidableValuesReadable : (values : List Value) → Decidable (valuesReadable values)
  | [] => instDecidableTrue
  | v :: values => @instDecidableAnd _ _ v.decidableReadable (decidableValuesReadable values)

def decidableMembersReadable :
    (members : List (String × Value)) → Decidable (membersReadable members)
  | [] => instDecidableTrue
  | (_, v) :: members =>
      @instDecidableAnd _ _ _
        (@instDecidableAnd _ _ v.decidableReadable (decidableMembersReadable members))

end

instance (members : Object) : Decidable (membersReadable members) :=
  decidableMembersReadable members

mutual

/-- As `Readable`, with decimals whose text is read as a number. -/
def Value.Printable : Value → Prop
  | .object members => membersPrintable members
  | .array values => valuesPrintable values
  | .string text => isRawText text.toList = true
  | .decimal text => ReadsNumber text.toList
  | .integer number => InRange number
  | .boolean _ => True

def valuesPrintable : List Value → Prop
  | [] => True
  | v :: values => v.Printable ∧ valuesPrintable values

def membersPrintable : List (String × Value) → Prop
  | [] => True
  | (key, v) :: members =>
      isRawText key.toList = true ∧ v.Printable ∧ membersPrintable members

end

mutual

/-- The tree that a printed one is read as. -/
def Value.RereadAs : Value → Value → Prop
  | .object members, .object reread => membersRereadAs members reread
  | .array values, .array reread => valuesRereadAs values reread
  | .string text, .string reread => text = reread
  | .decimal _, _ => True
  | .integer number, .integer reread => number = reread
  | .boolean flag, .boolean reread => flag = reread
  | _, _ => False

def valuesRereadAs : List Value → List Value → Prop
  | [], [] => True
  | v :: values, w :: reread => v.RereadAs w ∧ valuesRereadAs values reread
  | _, _ => False

def membersRereadAs : List (String × Value) → List (String × Value) → Prop
  | [], [] => True
  | (key, v) :: members, (key', w) :: reread =>
      key = key' ∧ v.RereadAs w ∧ membersRereadAs members reread
  | _, _ => False

end

mutual

theorem Value.Readable.printable {v : Value} (h : v.Readable) : v.Printable := by
  cases v with
  | object members => exact printable_of_membersReadable members h
  | array values => exact printable_of_valuesReadable values h
  | decimal text => exact h.elim
  | _ => exact h

theorem printable_of_valuesReadable (values : List Value) (h : valuesReadable values) :
    valuesPrintable values := by
  cases values with
  | nil => trivial
  | cons v values =>
      exact ⟨Value.Readable.printable h.1, printable_of_valuesReadable values h.2⟩

theorem printable_of_membersReadable
    (members : List (String × Value)) (h : membersReadable members) :
    membersPrintable members := by
  cases members with
  | nil => trivial
  | cons m members =>
      exact ⟨h.1, Value.Readable.printable h.2.1, printable_of_membersReadable members h.2.2⟩

end

mutual

/-- A tree without decimals is read as it is. -/
theorem Value.Readable.reread {v w : Value} (h : v.Readable) (hreread : v.RereadAs w) : w = v := by
  cases v with
  | object members =>
      cases w with
      | object reread => rw [reread_of_membersReadable members reread h hreread]
      | _ => exact hreread.elim
  | array values =>
      cases w with
      | array reread => rw [reread_of_valuesReadable values reread h hreread]
      | _ => exact hreread.elim
  | decimal text => exact h.elim
  | string text =>
      cases w with
      | string reread => exact congrArg Value.string hreread.symm
      | _ => exact hreread.elim
  | integer number =>
      cases w with
      | integer reread => exact congrArg Value.integer hreread.symm
      | _ => exact hreread.elim
  | boolean flag =>
      cases w with
      | boolean reread => exact congrArg Value.boolean hreread.symm
      | _ => exact hreread.elim

theorem reread_of_valuesReadable
    (values reread : List Value) (h : valuesReadable values)
    (hreread : valuesRereadAs values reread) : reread = values := by
  cases values with
  | nil =>
      cases reread with
      | nil => rfl
      | cons w reread => exact hreread.elim
  | cons v values =>
      cases reread with
      | nil => exact hreread.elim
      | cons w reread =>
          rw [Value.Readable.reread h.1 hreread.1,
            reread_of_valuesReadable values reread h.2 hreread.2]

theorem reread_of_membersReadable
    (members reread : List (String × Value)) (h : membersReadable members)
    (hreread : membersRereadAs members reread) : reread = members := by
  cases members with
  | nil =>
      cases reread with
      | nil => rfl
      | cons n reread => exact hreread.elim
  | cons m members =>
      obtain ⟨key, v⟩ := m
      cases reread with
      | nil => exact hreread.elim
      | cons n reread =>
          obtain ⟨key', w⟩ := n
          obtain ⟨hkey, hv, htail⟩ := hreread
          rw [← hkey, Value.Readable.reread h.2.1 hv,
            reread_of_membersReadable members reread h.2.2 htail]

end

/-! ## The written text -/

/-- Lines that end in a comma, except for the last one. -/
def lines : List (List Char) → List Char
  | [] => []
  | text :: texts => text ++ (texts.map fun t => [','] ++ '\n' :: t).flatten

/-- Lines between an opening and a closing mark. -/
def enclosed (l r : Char) (texts : List (List Char)) : List Char :=
  [l] ++ ('\n' :: lines texts ++ ['\n', r])

def memberText (m : String × Value) : List Char :=
  '"' :: m.1.toList ++ ['"'] ++ ([' ', ':'] ++ ' ' :: (writeValue m.2).toList)

theorem toList_writeValues (values : List Value) :
    (writeValues values).toList = lines (values.map fun v => (writeValue v).toList) := by
  induction values with
  | nil => rfl
  | cons v values ih =>
      cases values with
      | nil => simp [writeValues, lines]
      | cons w rest =>
          simp only [writeValues, String.toList_append, ih]
          simp [lines]

theorem toList_writeMembers (members : List (String × Value)) :
    (writeMembers members).toList = lines (members.map memberText) := by
  induction members with
  | nil => rfl
  | cons m members ih =>
      obtain ⟨key, v⟩ := m
      cases members with
      | nil => simp [writeMembers, lines, memberText]
      | cons w rest =>
          simp only [writeMembers, String.toList_append, ih]
          simp [lines, memberText]

theorem toList_writeObject (members : List (String × Value)) :
    (writeValue (.object members)).toList =
      enclosed '\x7b' '\x7d' (members.map memberText) := by
  simp [writeValue, toList_writeMembers, enclosed]

theorem toList_writeArray (values : List Value) :
    (writeValue (.array values)).toList =
      enclosed '[' ']' (values.map fun v => (writeValue v).toList) := by
  simp [writeValue, toList_writeValues, enclosed]

theorem toList_writeInteger (n : ℤ) :
    (writeValue (.integer n)).toList =
      (if n < 0 then ['-'] else []) ++ Nat.toDigits 10 n.natAbs := by
  cases n with
  | ofNat m =>
      have hm : ¬ (Int.ofNat m < 0) := Int.not_lt.2 (Int.natCast_nonneg m)
      rw [if_neg hm]
      exact Nat.toList_repr
  | negSucc m =>
      have hm : Int.negSucc m < 0 := Int.negSucc_lt_zero m
      rw [if_pos hm]
      change ("-" ++ (m + 1).repr).toList = _
      rw [String.toList_append, Nat.toList_repr]
      rfl

theorem signedValue_toDigits (n : ℤ) :
    signedValue (if n < 0 then ['-'] else []) (Nat.toDigits 10 n.natAbs) = n := by
  unfold signedValue digitsValue
  rw [Nat.ofDigitChars_ten_toDigits]
  by_cases hn : n < 0
  · rw [if_pos hn, if_pos rfl]
    omega
  · rw [if_neg hn, if_neg (by decide)]
    omega

/-! ## Taking it -/

theorem takes_integer {n : ℤ} (hn : InRange n) :
    Takes integerRule (writeValue (.integer n)).toList n Closes := by
  intro rest hrest
  have hsigns : (if n < 0 then ['-'] else []) ∈ signs := by
    split <;> decide
  have hdigits : AllDigits (Nat.toDigits 10 n.natAbs) :=
    fun c hc => Nat.isDigit_of_mem_toDigits (by decide) (by decide) hc
  have hn' := signedValue_toDigits n
  obtain ⟨d, tail, hhead⟩ := List.exists_cons_of_ne_nil (Nat.toDigits_ne_nil (n := n.natAbs) (b := 10))
  have hd : d.isDigit = true := hdigits d (by rw [hhead]; exact List.mem_cons_self)
  have hinput : (((writeValue (.integer n)).toList ++ rest).dropWhile isSpace) =
      (if n < 0 then ['-'] else []) ++ (Nat.toDigits 10 n.natAbs ++ rest) := by
    have hspace := (not_structural_of_head (Or.inl hd)).1
    rw [toList_writeInteger, List.append_assoc]
    split
    · rfl
    · rw [hhead, List.nil_append, List.cons_append,
        List.dropWhile_cons_of_neg (by simp [hspace])]
  have hsign : (if n < 0 then ['-'] else []) = [] →
      Ends isSign (Nat.toDigits 10 n.natAbs ++ rest) := by
    intro _
    rw [hhead, List.cons_append, ends_cons]
    exact not_isSign_of_isDigit hd
  rw [run_integerRule hinput hsigns hsign hdigits hrest.delimits.digit, hn',
    if_pos ⟨Nat.toDigits_ne_nil, hn, hrest.point⟩]

theorem takes_mark {c : Char} (hc : isSpace c = false) (follow : List Char → Prop) :
    Takes (lit c) [c] c follow :=
  fun rest _ => lit_head hc rest

/-- Items with a comma in front of all but the first. -/
def separated : List (List Char) → List Char
  | [] => []
  | word :: words => word ++ (words.map fun w => [','] ++ w).flatten

theorem takes_separated
    {α : Type} {item : Scanner Char α} {r : Char} {word : List Char} {a : α}
    {words : List (List Char)} {as : List α} (hword : Takes item word a Closes)
    (hwords : List.Forall₂ (fun word a => Takes item word a Closes) words as)
    (hshrinks : Shrinks item) (hr : r ∈ ['\x7d', ']']) :
    Takes (sepBy1 item (lit ',')) (separated (word :: words)) (a :: as) (Next [r]) := by
  have hfollowing : ∀ w a, Takes item w a Closes →
      Takes (lit ',' >>= fun _ => item) ([','] ++ w) a Closes := fun w a hw =>
    (takes_mark (by decide) fun _ => True).bind hw fun _ _ => trivial
  have hcomma : ∀ w ∈ words.map fun w => [','] ++ w, ∀ rest, Closes (w ++ rest) := by
    intro w hw rest
    obtain ⟨t, -, rfl⟩ := List.mem_map.1 hw
    exact (next_cons (by decide) _ _).2 List.mem_cons_self
  have hmany : Takes (many (lit ',' >>= fun _ => item))
      (words.map fun w => [','] ++ w).flatten as (Next [r]) := by
    refine Takes.many (List.forall₂_map_left_iff.2 (hwords.imp hfollowing))
      ((consumes_lit ',').bind fun _ => hshrinks) hcomma (fun rest => closes_of_next hr) ?_
    intro rest hrest
    refine refuses_lit ',' _ rest r ?_ hrest
    rintro rfl
    revert hr
    decide
  have hreturn : Takes (many (lit ',' >>= fun _ => item) >>= fun as => pure (a :: as))
      (words.map fun w => [','] ++ w).flatten (a :: as) (Next [r]) := by
    rw [bind_pure_comp]
    exact hmany.map (a :: ·)
  have hall := hword.bind (f := fun a => many (lit ',' >>= fun _ => item) >>= fun as =>
    pure (a :: as)) hreturn (by
      intro rest hrest
      cases words with
      | nil => exact closes_of_next hr hrest
      | cons w words => exact (next_cons (by decide) _ _).2 List.mem_cons_self)
  exact hall

theorem isSpace_close {r : Char} (hr : r ∈ ['\x7d', ']']) : isSpace r = false := by
  simp only [List.mem_cons, List.not_mem_nil, or_false] at hr
  rcases hr with rfl | rfl <;> decide

/-- A list is taken with the marks around it and the blanks in front of the last. -/
theorem takes_closed
    {α : Type} {item : Scanner Char α} {l r : Char} {blanks word : List Char} {a : α}
    {words : List (List Char)} {as : List α} (hword : Takes item word a Closes)
    (hwords : List.Forall₂ (fun word a => Takes item word a Closes) words as)
    (hblanks : ∀ c ∈ blanks, isSpace c = true)
    (hshrinks : Shrinks item) (hl : isSpace l = false) (hr : r ∈ ['\x7d', ']'])
    (follow : List Char → Prop) :
    Takes (do
      let _ ← lit l
      let as ← orDefault (sepBy1 item (lit ',')) []
      let _ ← lit r
      return as) ([l] ++ (separated (word :: words) ++ (blanks ++ [r]))) (a :: as) follow := by
  have hclose : Takes (lit r >>= fun _ => pure (a :: as)) (blanks ++ [r]) (a :: as) follow := by
    have h := (takes_lit (isSpace_close hr) hblanks follow).map fun _ => a :: as
    rwa [← bind_pure_comp] at h
  refine (takes_mark hl fun _ => True).bind ?_ fun _ _ => trivial
  refine ((takes_separated hword hwords hshrinks hr).orElse (pure [])).bind hclose ?_
  intro rest _
  rw [List.append_assoc]
  exact (next_blanks hblanks [r] (r :: rest)).2
    ((next_cons (isSpace_close hr) _ _).2 List.mem_cons_self)

theorem lines_eq (text : List Char) (texts : List (List Char)) :
    '\n' :: lines (text :: texts) =
      separated (('\n' :: text) :: texts.map fun t => '\n' :: t) := by
  simp [lines, separated, List.map_map, Function.comp_def]

/-- A list on lines of its own is taken with the mark that closes it. -/
theorem takes_enclosed
    {α : Type} {item : Scanner Char α} {l r : Char} {texts : List (List Char)} {as : List α}
    (hitems : List.Forall₂ (fun text a => Takes item ('\n' :: text) a Closes) texts as)
    (hshrinks : Shrinks item) (hl : isSpace l = false) (hr : r ∈ ['\x7d', ']'])
    (hrefuses : Refuses (fun c => c = r) item) (follow : List Char → Prop) :
    Takes (do
      let _ ← lit l
      let as ← orDefault (sepBy1 item (lit ',')) []
      let _ ← lit r
      return as) (enclosed l r texts) as follow := by
  cases hitems with
  | nil =>
      have hblanks : ∀ c ∈ ['\n', '\n'], isSpace c = true := List.all_eq_true.1 rfl
      have hempty : Takes (orDefault (sepBy1 item (lit ',')) []) [] [] (Next [r]) :=
        (Takes.pure [] _).otherwise fun rest hrest => hrefuses.bind _ rest r rfl hrest
      have hclose := (takes_lit (isSpace_close hr) hblanks follow).map fun _ => ([] : List α)
      rw [← bind_pure_comp] at hclose
      refine (takes_mark hl fun _ => True).bind (hempty.bind hclose ?_) fun _ _ => trivial
      intro rest _
      exact (next_blanks hblanks [r] (r :: rest)).2
        ((next_cons (isSpace_close hr) _ _).2 List.mem_cons_self)
  | cons hitem hitems =>
      have hblanks : ∀ c ∈ ['\n'], isSpace c = true := List.all_eq_true.1 rfl
      have h := takes_closed hitem (List.forall₂_map_left_iff.2 hitems) hblanks hshrinks hl hr
        follow
      rw [← lines_eq] at h
      exact h

/-- Leading blanks make no difference. -/
def Skips {α : Type} (p : Scanner Char α) : Prop :=
  ∀ blanks input, (∀ c ∈ blanks, isSpace c = true) → p (blanks ++ input) = p input

section

variable {α β : Type} {p q : Scanner Char α}

theorem skips_skip (f : Unit → Scanner Char α) : Skips (skip >>= f) := by
  intro blanks input hblanks
  rw [bind_taken (run_skip _), bind_taken (run_skip _), dropWhile_blanks hblanks]

theorem Skips.bind (hp : Skips p) (f : α → Scanner Char β) : Skips (p >>= f) := by
  intro blanks input hblanks
  rw [run_bind, run_bind, hp blanks input hblanks]

theorem Skips.map (hp : Skips p) (f : α → β) : Skips (f <$> p) := by
  intro blanks input hblanks
  rw [run_map, run_map, hp blanks input hblanks]

theorem Skips.orElse (hp : Skips p) (hq : Skips q) : Skips (p <|> q) := by
  intro blanks input hblanks
  rw [run_orElse, run_orElse, hp blanks input hblanks, hq blanks input hblanks]

theorem Skips.takes
    (hp : Skips p) {word blanks : List Char} {a : α} {follow : List Char → Prop}
    (hword : Takes p word a follow) (hblanks : ∀ c ∈ blanks, isSpace c = true) :
    Takes p (blanks ++ word) a follow := by
  intro rest hrest
  rw [List.append_assoc, hp blanks _ hblanks]
  exact hword rest hrest

end

theorem length_le_lines {text : List Char} {texts : List (List Char)} (h : text ∈ texts) :
    text.length ≤ (lines texts).length := by
  cases texts with
  | nil => cases h
  | cons t texts =>
      unfold lines
      rw [List.length_append]
      cases List.mem_cons.1 h with
      | inl h => rw [h]; omega
      | inr h =>
          have hmem : [','] ++ '\n' :: text ∈ texts.map fun t => [','] ++ '\n' :: t :=
            List.mem_map_of_mem h
          have hle := (List.sublist_flatten_of_mem hmem).length_le
          simp at hle
          simp
          omega

theorem length_lt_enclosed {l r : Char} {text : List Char} {texts : List (List Char)}
    (h : text ∈ texts) : text.length < (enclosed l r texts).length := by
  have hle := length_le_lines h
  simp [enclosed]
  omega

theorem length_value_lt {v : Value} {values : List Value} (h : v ∈ values) :
    (writeValue v).toList.length < (writeValue (.array values)).toList.length := by
  rw [toList_writeArray]
  exact length_lt_enclosed (List.mem_map_of_mem h)

theorem length_member_lt {m : String × Value} {members : List (String × Value)} (h : m ∈ members) :
    (writeValue m.2).toList.length < (writeValue (.object members)).toList.length := by
  rw [toList_writeObject]
  have hlt := length_lt_enclosed (l := '\x7b') (r := '\x7d') (List.mem_map_of_mem (f := memberText) h)
  simp [memberText] at hlt
  simp
  omega

section

variable (decimalText : List Char → String)

/-- The number that the text of a decimal is read as. -/
def rereadNumber (text : String) : Value :=
  match numberRule decimalText (Value.boolean <$> bool) text.toList with
  | some (v, _) => v
  | none => .decimal text

mutual

def Value.reread : Value → Value
  | .object members => .object (rereadMembers members)
  | .array values => .array (rereadValues values)
  | .string text => .string text
  | .decimal text => rereadNumber decimalText text
  | .integer number => .integer number
  | .boolean flag => .boolean flag

def rereadValues : List Value → List Value
  | [] => []
  | v :: values => v.reread :: rereadValues values

def rereadMembers : List (String × Value) → List (String × Value)
  | [] => []
  | (key, v) :: members => (key, v.reread) :: rereadMembers members

end

mutual

theorem Value.rereadAs_reread (v : Value) : v.RereadAs (v.reread decimalText) := by
  cases v with
  | object members => exact membersRereadAs_reread members
  | array values => exact valuesRereadAs_reread values
  | decimal text => trivial
  | string | integer | boolean => rfl

theorem valuesRereadAs_reread (values : List Value) :
    valuesRereadAs values (rereadValues decimalText values) := by
  cases values with
  | nil => trivial
  | cons v values => exact ⟨v.rereadAs_reread, valuesRereadAs_reread values⟩

theorem membersRereadAs_reread (members : List (String × Value)) :
    membersRereadAs members (rereadMembers decimalText members) := by
  cases members with
  | nil => trivial
  | cons m members => exact ⟨rfl, m.2.rereadAs_reread, membersRereadAs_reread members⟩

end

/-- The text of a decimal is read up to its end. -/
theorem takes_rereadNumber {text : String} (htext : ReadsNumber text.toList) :
    Takes (numberRule decimalText (Value.boolean <$> bool)) text.toList
      (rereadNumber decimalText text) Closes := by
  obtain ⟨c, tail, hhead, hspace, -⟩ := readsNumber_head htext
  obtain ⟨w, hw⟩ := numberRule_taken decimalText (Value.boolean <$> bool) htext
  have halone : numberRule decimalText (Value.boolean <$> bool) text.toList = some (w, []) := by
    apply hw _ [] delimits_nil rfl
    rw [hhead, List.dropWhile_cons_of_neg (by simp [hspace]), List.append_nil]
  rw [rereadNumber, halone]
  intro rest hrest
  apply hw _ rest hrest.delimits hrest.point
  rw [hhead, List.cons_append, List.dropWhile_cons_of_neg (by simp [hspace])]

theorem takes_string {text : String} (htext : isRawText text.toList = true)
    {blanks : List Char} (hblanks : ∀ c ∈ blanks, isSpace c = true) (follow : List Char → Prop) :
    Takes quotedString (blanks ++ ('"' :: text.toList ++ ['"'])) text follow := by
  have h := takes_quotedString hblanks htext follow
  rw [String.ofList_toList] at h
  simpa using h

theorem skips_valueRule (depth : ℕ) : Skips (valueRule decimalText depth) := by
  cases depth with
  | zero => exact fun _ _ _ => rfl
  | succ depth =>
      have hlit : ∀ c, Skips (lit c) := fun c => skips_skip _
      exact (((hlit _).bind _).map _).orElse ((((hlit _).bind _).map _).orElse
        ((((hlit _).bind _).map _).orElse ((((skips_skip _).bind _).map _).orElse
          (((skips_skip _).map _).orElse ((skips_skip _).map _)))))

theorem takes_named
    {depth : ℕ} {key : String} {w : Value} {blanks gap word : List Char}
    (hblanks : ∀ c ∈ blanks, isSpace c = true) (hkey : isRawText key.toList = true)
    (hgap : ∀ c ∈ gap, isSpace c = true)
    (hword : Takes (valueRule decimalText depth) word w Closes) :
    Takes (dataRule (valueRule decimalText depth))
      (blanks ++ ('"' :: key.toList ++ ['"']) ++ (gap ++ [':'] ++ word)) (key, w) Closes := by
  have hvalue := hword.map fun w => (key, w)
  rw [← bind_pure_comp] at hvalue
  have hmark : isSpace ':' = false := by decide
  have hcolon := takes_lit hmark hgap fun _ => True
  have hstring := takes_string hkey hblanks fun _ => True
  exact hstring.bind (hcolon.bind hvalue fun _ _ => trivial) fun _ _ => trivial

theorem takes_member
    {depth : ℕ} {key : String} {v w : Value} (hkey : isRawText key.toList = true)
    (hv : Takes (valueRule decimalText depth) (writeValue v).toList w Closes) :
    Takes (dataRule (valueRule decimalText depth)) ('\n' :: memberText (key, v)) (key, w) Closes := by
  have hspace : ∀ c ∈ [' '], isSpace c = true := List.all_eq_true.1 rfl
  have hline : ∀ c ∈ ['\n'], isSpace c = true := List.all_eq_true.1 rfl
  have hvalue := (skips_valueRule decimalText depth).takes hv hspace
  have h := takes_named decimalText hline hkey hspace hvalue
  exact h

theorem length_writeValue_pos {v : Value} (hv : v.Printable) :
    0 < (writeValue v).toList.length := by
  cases v with
  | object members => rw [toList_writeObject]; simp [enclosed]
  | array values => rw [toList_writeArray]; simp [enclosed]
  | string text => simp [writeValue]
  | decimal text =>
      obtain ⟨c, tail, hhead, -⟩ := readsNumber_head hv
      rw [writeValue, hhead]
      simp
  | integer n =>
      have := List.length_pos_of_ne_nil (Nat.toDigits_ne_nil (n := n.natAbs) (b := 10))
      rw [toList_writeInteger, List.length_append]
      omega
  | boolean flag => cases flag <;> simp [writeValue]

theorem head_writeInteger (n : ℤ) :
    ∃ c tail, (writeValue (.integer n)).toList = c :: tail ∧ isSpace c = false ∧
      ∀ mark ∈ structuralMarks, c ≠ mark := by
  rw [toList_writeInteger]
  split
  · exact ⟨'-', _, rfl, by decide, by simp [structuralMarks]⟩
  · obtain ⟨d, tail, hhead⟩ :=
      List.exists_cons_of_ne_nil (Nat.toDigits_ne_nil (n := n.natAbs) (b := 10))
    have hd : d.isDigit = true :=
      Nat.isDigit_of_mem_toDigits (b := 10) (n := n.natAbs) (by decide) (by decide)
        (by rw [hhead]; exact List.mem_cons_self)
    obtain ⟨hspace, hmarks⟩ := not_structural_of_head (Or.inl hd)
    exact ⟨d, tail, hhead, hspace, fun mark hmark h => hmarks (h ▸ hmark)⟩

/-- A scalar is taken by its own alternative, past the ones in front of it. -/
theorem takes_scalar
    {v : Value} (hv : v.Printable) (hobject : ∀ members, v ≠ .object members)
    (harray : ∀ values, v ≠ .array values) (depth : ℕ) :
    Takes (valueRule decimalText (depth + 1)) (writeValue v).toList (v.reread decimalText)
      Closes := by
  have hrefuses : ∀ {α β : Type} (f : α → β) {p : Scanner Char α} (mark : Char),
      Refuses (fun d => d ≠ mark) p → ∀ {c : Char}, isSpace c = false → c ≠ mark →
      ∀ tail, (f <$> p) (c :: tail) = none :=
    fun f _ _ hp _ hspace hc tail => (hp.map f).head hspace hc tail
  cases v with
  | object members => exact absurd rfl (hobject members)
  | array values => exact absurd rfl (harray values)
  | decimal text =>
      obtain ⟨c, tail, hhead, hspace, hmarks⟩ := readsNumber_head hv
      have hnumber := takes_rereadNumber decimalText hv
      have hne : ∀ mark ∈ ['"', '[', '\x7b'], c ≠ mark := fun mark hmark =>
        ne_of_scalar (Or.inl hmarks) hmark
      refine ((hnumber.otherwise ?_).otherwise ?_).otherwise ?_
      · intro rest _
        rw [hhead]
        exact hrefuses _ _ (refuses_lit '"' _) hspace (hne '"' (by decide)) _
      · intro rest _
        rw [hhead]
        exact hrefuses _ _ (refuses_lit '[' _) hspace (hne '[' (by decide)) _
      · intro rest _
        rw [hhead]
        exact hrefuses _ _ (refuses_lit '\x7b' _) hspace (hne '\x7b' (by decide)) _
  | string text =>
      have hblanks : ∀ c ∈ [], isSpace c = true := List.forall_mem_nil _
      have hstring := takes_string hv hblanks Closes
      have htext : (writeValue (.string text)).toList = '"' :: text.toList ++ ['"'] := by
        simp [writeValue]
      rw [htext]
      refine (((Takes.map hstring Value.string).orElse _).otherwise ?_).otherwise ?_
      · exact fun rest _ => hrefuses _ _ (refuses_lit '[' _) (by decide) (by decide) _
      · exact fun rest _ => hrefuses _ _ (refuses_lit '\x7b' _) (by decide) (by decide) _
  | integer n =>
      obtain ⟨c, tail, hhead, hspace, hc⟩ := head_writeInteger n
      have hinteger := Takes.map (takes_integer hv) Value.integer
      refine (((hinteger.orElse _).otherwise ?_).otherwise ?_).otherwise ?_
      · intro rest _
        rw [hhead]
        exact hrefuses _ _ (refuses_lit '"' _) hspace (hc '"' (by decide)) _
      · intro rest _
        rw [hhead]
        exact hrefuses _ _ (refuses_lit '[' _) hspace (hc '[' (by decide)) _
      · intro rest _
        rw [hhead]
        exact hrefuses _ _ (refuses_lit '\x7b' _) hspace (hc '\x7b' (by decide)) _
  | boolean flag =>
      have hblanks : ∀ c ∈ [], isSpace c = true := List.forall_mem_nil _
      have hbool := Takes.map (takes_bool flag hblanks Closes) Value.boolean
      have htext : (writeValue (.boolean flag)).toList = flagText flag := by
        cases flag <;> rfl
      obtain ⟨c, tail, hhead, hc⟩ : ∃ c tail, flagText flag = c :: tail ∧ (c = 't' ∨ c = 'f') := by
        cases flag with
        | true => exact ⟨'t', _, rfl, Or.inl rfl⟩
        | false => exact ⟨'f', _, rfl, Or.inr rfl⟩
      have hnumber : ∀ rest, integerRule (c :: tail ++ rest) = none ∧
          double (c :: tail ++ rest) = none := by
        intro rest
        rcases hc with rfl | rfl <;>
          exact refuses_number (by decide) (by decide) (by decide) (by decide) (by decide)
            ((next_cons (by decide) _ _).2 List.mem_cons_self)
      have hspace : isSpace c = false := by
        rcases hc with rfl | rfl <;> decide
      have hmarks : ∀ mark ∈ ['"', '[', '\x7b'], c ≠ mark := by
        rcases hc with rfl | rfl <;> simp
      rw [htext]
      rw [List.nil_append, hhead] at hbool
      rw [hhead]
      refine ((((hbool.otherwise ?_).otherwise ?_).otherwise ?_).otherwise ?_).otherwise ?_
      · intro rest _
        rw [run_map, (hnumber rest).2]
        rfl
      · intro rest _
        rw [run_map, (hnumber rest).1]
        rfl
      · exact fun rest _ => hrefuses _ _ (refuses_lit '"' _) hspace (hmarks _ (by decide)) _
      · exact fun rest _ => hrefuses _ _ (refuses_lit '[' _) hspace (hmarks _ (by decide)) _
      · exact fun rest _ => hrefuses _ _ (refuses_lit '\x7b' _) hspace (hmarks _ (by decide)) _

mutual

theorem takes_value
    (v : Value) (depth : ℕ) (hdepth : (writeValue v).toList.length ≤ depth) (hv : v.Printable) :
    Takes (valueRule decimalText depth) (writeValue v).toList (v.reread decimalText) Closes := by
  have hpos := length_writeValue_pos hv
  obtain ⟨depth, rfl⟩ : ∃ k, depth = k + 1 := ⟨depth - 1, by omega⟩
  have hshrinks := (sound_valueRule decimalText depth).shrinks
  cases v with
  | object members =>
      have hmembers := takes_members members depth
        (fun m hm => by have := length_member_lt hm; omega) hv
      have hobject := takes_enclosed (l := '\x7b') hmembers
        (sound_dataRule (sound_valueRule decimalText depth)).shrinks (by decide) (by decide)
        (refuses_dataRule _) Closes
      rw [toList_writeObject]
      exact (Takes.map hobject Value.object).orElse _
  | array values =>
      have hvalues := takes_values values depth
        (fun v hv => by have := length_value_lt hv; omega) hv
      have harray := takes_enclosed (l := '[') hvalues hshrinks (by decide) (by decide)
        (refuses_valueRule decimalText depth) Closes
      rw [toList_writeArray]
      refine ((Takes.map harray Value.array).orElse _).otherwise ?_
      intro rest _
      have hobject : Refuses (fun d => d ≠ '\x7b') (objectRule (valueRule decimalText depth)) :=
        refuses_lit '\x7b' _
      exact (hobject.map Value.object).head (c := '[') (by decide) (by decide) _
  | string text => exact takes_scalar decimalText hv (by simp) (by simp) depth
  | decimal text => exact takes_scalar decimalText hv (by simp) (by simp) depth
  | integer n => exact takes_scalar decimalText hv (by simp) (by simp) depth
  | boolean flag => exact takes_scalar decimalText hv (by simp) (by simp) depth

theorem takes_values
    (values : List Value) (depth : ℕ)
    (hdepth : ∀ v ∈ values, (writeValue v).toList.length ≤ depth) (hv : valuesPrintable values) :
    List.Forall₂ (fun text v => Takes (valueRule decimalText depth) ('\n' :: text) v Closes)
      (values.map fun v => (writeValue v).toList) (rereadValues decimalText values) := by
  cases values with
  | nil => exact List.Forall₂.nil
  | cons v values =>
      have hvalue := takes_value v depth (hdepth v List.mem_cons_self) hv.1
      have hvalues := takes_values values depth
        (fun w hw => hdepth w (List.mem_cons_of_mem v hw)) hv.2
      have hline : ∀ c ∈ ['\n'], isSpace c = true := List.all_eq_true.1 rfl
      have hskipped := (skips_valueRule decimalText depth).takes hvalue hline
      exact List.Forall₂.cons hskipped hvalues

theorem takes_members
    (members : List (String × Value)) (depth : ℕ)
    (hdepth : ∀ m ∈ members, (writeValue m.2).toList.length ≤ depth)
    (hm : membersPrintable members) :
    List.Forall₂
      (fun text m => Takes (dataRule (valueRule decimalText depth)) ('\n' :: text) m Closes)
      (members.map memberText) (rereadMembers decimalText members) := by
  cases members with
  | nil => exact List.Forall₂.nil
  | cons m members =>
      obtain ⟨key, v⟩ := m
      obtain ⟨hkey, hv, htail⟩ := hm
      have hvalue := takes_value v depth (hdepth (key, v) List.mem_cons_self) hv
      have hmembers := takes_members members depth
        (fun w hw => hdepth w (List.mem_cons_of_mem _ hw)) htail
      exact List.Forall₂.cons (takes_member decimalText hkey hvalue) hmembers

end

/-! ## The whole document -/

/-- The reader gets through the text of an object, up to its end. -/
theorem objectRule_writeValue {ast : Object} (hast : membersPrintable ast) :
    objectRule (valueRule decimalText (writeValue (.object ast)).length)
        (writeValue (.object ast)).toList = some (rereadMembers decimalText ast, []) := by
  have hmembers := takes_members decimalText ast
    (writeValue (.object ast)).length (fun m hm => by
      have := length_member_lt hm
      rw [← String.length_toList]
      omega) hast
  have hobject := takes_enclosed (l := '\x7b') (r := '\x7d') hmembers
    (sound_dataRule (sound_valueRule decimalText _)).shrinks (by decide) (by decide)
    (refuses_dataRule _) (fun _ => True) [] trivial
  rw [toList_writeObject]
  rw [List.append_nil] at hobject
  exact hobject

theorem writeValue_object_ne {ast : Object} (hast : membersPrintable ast) :
    writeValue (.object ast) ≠ "" := by
  have hpos := length_writeValue_pos (v := .object ast) hast
  intro h
  rw [h] at hpos
  exact absurd hpos (by decide)

theorem read_writeValue_reread {ast : Object} (hast : membersPrintable ast) :
    JsonReader.read decimalText (writeValue (.object ast)) =
      .ok (some (rereadMembers decimalText ast)) := by
  have htext := writeValue_object_ne hast
  unfold JsonReader.read
  rw [objectRule_writeValue decimalText hast]
  simp [confirm, htext, bind, Except.bind, pure, Except.pure]

theorem reread_writeValue {ast : Object} (hast : membersPrintable ast) :
    ∃ reread, membersRereadAs ast reread ∧
      JsonReader.read decimalText (writeValue (.object ast)) = .ok (some reread) :=
  ⟨_, membersRereadAs_reread decimalText ast, read_writeValue_reread decimalText hast⟩

theorem read_writeValue {ast : Object} (hast : membersReadable ast) :
    JsonReader.read decimalText (writeValue (.object ast)) = .ok (some ast) := by
  obtain ⟨reread, hreread, hread⟩ := reread_writeValue decimalText
    (printable_of_membersReadable ast hast)
  rw [hread, reread_of_membersReadable ast reread hast hreread]

/-! ## What is read can be printed -/

theorem membersPrintable_iff {members : List (String × Value)} :
    membersPrintable members ↔
      ∀ m ∈ members, isRawText m.1.toList = true ∧ m.2.Printable := by
  induction members with
  | nil => simp [membersPrintable]
  | cons m members ih => simp [membersPrintable, ih, and_assoc]

theorem membersPrintable_set
    {o : Object} (h : membersPrintable o) {key : String} {v : Value}
    (hkey : isRawText key.toList = true) (hv : v.Printable) :
    membersPrintable (OrderedTable.set key v o) := by
  rw [membersPrintable_iff] at h ⊢
  intro m hm
  rcases OrderedTable.mem_set hm with rfl | hm
  · exact ⟨hkey, hv⟩
  · exact h m hm

theorem printable_of_lookup
    {o : Object} (h : membersPrintable o) {key : String} {v : Value}
    (hlookup : OrderedTable.lookup key o = some v) : v.Printable :=
  (membersPrintable_iff.1 h _ (OrderedTable.mem_of_lookup hlookup)).2

theorem membersReadable_iff {members : List (String × Value)} :
    membersReadable members ↔
      ∀ m ∈ members, isRawText m.1.toList = true ∧ m.2.Readable := by
  induction members with
  | nil => simp [membersReadable]
  | cons m members ih => simp [membersReadable, ih, and_assoc]

theorem membersReadable_append {members more : List (String × Value)} :
    membersReadable (members ++ more) ↔ membersReadable members ∧ membersReadable more := by
  simp [membersReadable_iff, or_imp, forall_and]
  tauto

theorem valuesPrintable_iff {values : List Value} :
    valuesPrintable values ↔ ∀ v ∈ values, v.Printable := by
  induction values with
  | nil => simp [valuesPrintable]
  | cons v values ih => simp [valuesPrintable, ih]

theorem yields_quotedString : Yields quotedString fun s => isRawText s.toList = true := by
  intro input s rest h
  obtain ⟨text, -, hraw, rfl⟩ := quotedString_eq_some h
  rw [String.toList_ofList]
  exact hraw

theorem yields_integerRule : Yields integerRule InRange := by
  intro input n rest h
  obtain ⟨_, _, _, _, _, _, _, hrange⟩ := long_eq_some (integerRule_eq_some h)
  exact hrange

/-- What holds of every scalar that is read, and passes from parts to the whole, holds of
every value that is read. -/
theorem yields_valueRule_of {good : Value → Prop}
    (hobjects : ∀ members : List (String × Value),
      (∀ m ∈ members, isRawText m.1.toList = true ∧ good m.2) → good (.object members))
    (harrays : ∀ values, (∀ v ∈ values, good v) → good (.array values))
    (hstrings : ∀ text, isRawText text.toList = true → good (.string text))
    (hintegers : ∀ n, InRange n → good (.integer n))
    (hdecimals : ∀ digits, good (.decimal (decimalText digits)))
    (hbooleans : ∀ flag, good (.boolean flag)) (depth : ℕ) :
    Yields (valueRule decimalText depth) good := by
  induction depth with
  | zero =>
      intro input v rest h
      cases h
  | succ depth ih =>
      have hmember : Yields (dataRule (valueRule decimalText depth))
          fun m => isRawText m.1.toList = true ∧ good m.2 :=
        yields_quotedString.bind fun _ hkey => (yields_any _).bind fun _ _ =>
          ih.bind fun _ hv => Yields.pure ⟨hkey, hv⟩
      have hobject : Yields (objectRule (valueRule decimalText depth))
          fun members => good (.object members) :=
        (yields_any _).bind fun _ _ => (hmember.list _).bind fun members hmembers =>
          (yields_any _).bind fun _ _ => Yields.pure (hobjects members hmembers)
      have harray : Yields (arrayRule (valueRule decimalText depth))
          fun values => good (.array values) :=
        (yields_any _).bind fun _ _ => (ih.list _).bind fun values hvalues =>
          (yields_any _).bind fun _ _ => Yields.pure (harrays values hvalues)
      have hstring : Yields (Value.string <$> quotedString) good :=
        Yields.map fun input text rest h => hstrings text (yields_quotedString input text rest h)
      have hinteger : Yields (Value.integer <$> integerRule) good :=
        Yields.map fun input n rest h => hintegers n (yields_integerRule input n rest h)
      have hdecimal : Yields ((fun digits => Value.decimal (decimalText digits)) <$> double)
          good := Yields.map fun _ digits _ _ => hdecimals digits
      have hboolean : Yields (Value.boolean <$> bool) good :=
        Yields.map fun _ flag _ _ => hbooleans flag
      exact (Yields.map hobject).orElse ((Yields.map harray).orElse
        (hstring.orElse (hinteger.orElse (hdecimal.orElse hboolean))))

theorem yields_valueRule
    (hdecimal : ∀ digits, ReadsNumber (decimalText digits).toList) (depth : ℕ) :
    Yields (valueRule decimalText depth) Value.Printable :=
  yields_valueRule_of decimalText (fun _ hmembers => membersPrintable_iff.2 hmembers)
    (fun _ hvalues => valuesPrintable_iff.2 hvalues) (fun _ htext => htext)
    (fun _ hn => hn) hdecimal (fun _ => trivial) depth

/-- What is read as an object is what the rule of values reads. -/
theorem valueRule_of_objectRule {depth : ℕ} {input rest : List Char} {ast : Object}
    (h : objectRule (valueRule decimalText depth) input = some (ast, rest)) :
    valueRule decimalText (depth + 1) input = some (.object ast, rest) :=
  orElse_taken (by rw [run_map, h]; rfl) _

/-- A tree that was read can be printed. -/
theorem read_printable
    (hdecimal : ∀ digits, ReadsNumber (decimalText digits).toList) {text : String} {ast : Object}
    (h : JsonReader.read decimalText text = .ok (some ast)) : membersPrintable ast := by
  unfold JsonReader.read at h
  rw [bind_eq_ok] at h
  obtain ⟨u, -, h⟩ := h
  simp only [pure, Except.pure, Except.ok.injEq, Option.map_eq_some_iff] at h
  obtain ⟨⟨members, rest⟩, hrun, rfl⟩ := h
  exact yields_valueRule decimalText hdecimal (text.length + 1) text.toList (.object members) rest
    (valueRule_of_objectRule decimalText hrun)

/-- The tree that was written is read back. -/
theorem read_write {ast : Object} (hne : ast ≠ []) (hast : membersReadable ast) :
    (JsonWriter.write ast >>= JsonReader.read decimalText) = .ok (some ast) := by
  rw [JsonWriter.write_ok hne]
  exact read_writeValue decimalText hast

end

theorem read_write_nested :
    (JsonWriter.write [("a\\\"", .array [.object [], .integer (-7)]), ("", .boolean true)] >>=
        JsonReader.read String.ofList) =
      .ok (some [("a\\\"", .array [.object [], .integer (-7)]), ("", .boolean true)]) := by
  apply read_write
  · decide
  · refine ⟨by decide, ⟨trivial, ⟨by decide, by decide⟩, trivial⟩, by decide, trivial, trivial⟩

end ArtdaqDatabase
