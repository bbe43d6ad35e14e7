import ArtdaqDatabase.JsonReading
import ArtdaqDatabase.AlignedLanguages

/-!
# Which texts the reader accepts

The structure of RFC 8259 is the same grammar over a lexicon of its own.  The
reader does not ask whether the input is used up, its lexicon is wider in every
part, and an exponent straight behind the digits of an integer is not in it.  The
texts on which its answer is right are those that keep to the common lexicon.
-/

namespace ArtdaqDatabase

open Scanner
open scoped Computability

/-! ## The lexicon of RFC 8259 -/

def isHexDigit (c : Char) : Bool :=
  c.isDigit || decide (c.toLower ∈ ['a', 'b', 'c', 'd', 'e', 'f'])

/-- `unescaped`. -/
def rfcUnescaped : Language Char :=
  {w | ∃ c, (c ≠ '"' ∧ c ≠ '\\' ∧ 32 ≤ c.toNat) ∧ w = [c]}

def rfcPairs : Language Char :=
  {w | ∃ c ∈ ['"', '\\', '/', 'b', 'f', 'n', 'r', 't'], w = ['\\', c]}

def rfcCodes : Language Char :=
  {w | ∃ a b c d, (∀ x ∈ [a, b, c, d], isHexDigit x = true) ∧ w = ['\\', 'u', a, b, c, d]}

/-- The characters of an RFC string. -/
def rfcText : Language Char :=
  (rfcUnescaped + (rfcPairs + rfcCodes))∗

/-- No plus in front, no leading zero, and digits on both sides of a point. -/
structure Numeral.IsRfc (n : Numeral) : Prop extends n.WellFormed where
  minus : n.sign ≠ ['+']
  zero : n.whole = ['0'] ∨ n.whole ≠ [] ∧ n.whole.head? ≠ some '0'
  point : n.fraction ≠ some []

theorem isHexDigit_plain {c : Char} (hc : isHexDigit c = true) : c ≠ '\\' ∧ c ≠ '"' := by
  constructor <;> rintro rfl <;> exact absurd hc (by decide)

theorem isRawText_of_rfcText {text : List Char} (h : text ∈ rfcText) : isRawText text = true := by
  obtain ⟨words, rfl, hwords⟩ := Language.mem_kstar.1 h
  clear h
  induction words with
  | nil => rfl
  | cons w words ih =>
      have htail := ih fun y hy => hwords y (List.mem_cons_of_mem w hy)
      rw [List.flatten_cons]
      rcases hwords w List.mem_cons_self with hw | hw | hw
      · obtain ⟨c, ⟨hquote, hslash, -⟩, rfl⟩ := hw
        rwa [List.singleton_append, isRawText_plain hslash hquote]
      · obtain ⟨c, hc, rfl⟩ := hw
        simp only [List.mem_cons, List.not_mem_nil, or_false] at hc
        rcases hc with rfl | rfl | rfl | rfl | rfl | rfl | rfl | rfl <;>
          simpa [isRawText, escapeCodes, isRawText_plain] using htail
      · obtain ⟨a, b, c, d, hhex, rfl⟩ := hw
        have hplain := fun x hx => isHexDigit_plain (hhex x hx)
        simp only [List.mem_cons, List.not_mem_nil, or_false, forall_eq_or_imp, forall_eq] at hplain
        obtain ⟨ha, hb, hc, hd⟩ := hplain
        simp only [List.cons_append, List.nil_append]
        rw [isRawText, if_pos rfl, if_neg (by decide), isRawText_plain (by decide) (by decide),
          isRawText_plain ha.1 ha.2, isRawText_plain hb.1 hb.2, isRawText_plain hc.1 hc.2,
          isRawText_plain hd.1 hd.2]
        exact htail

def rfcLexicon : Lexicon where
  blank c := decide (c ∈ [' ', '\t', '\n', '\r'])
  string text := text ∈ rfcText
  number w := ∃ n : Numeral, n.IsRfc ∧ n.text = w
  blank_isSpace c hc := by
    have hmem := of_decide_eq_true hc
    simp only [List.mem_cons, List.not_mem_nil, or_false] at hmem
    rcases hmem with rfl | rfl | rfl | rfl <;> decide
  string_raw _ h := isRawText_of_rfcText h
  number_head w := by
    rintro ⟨n, hn, rfl⟩
    exact numeral_head hn.toWellFormed

/-! ## The lexicon that both have in common -/

/-- What is blank, text or a number for both, so no exponent straight behind an integer. -/
def commonLexicon : Lexicon where
  blank := rfcLexicon.blank
  string := rfcLexicon.string
  number w := ∃ n : Numeral, n.IsRfc ∧ (n.Plain → n.exponent = none) ∧ n.text = w
  blank_isSpace := rfcLexicon.blank_isSpace
  string_raw := rfcLexicon.string_raw
  number_head w := by
    rintro ⟨n, hn, -, rfl⟩
    exact numeral_head hn.toWellFormed

section

variable {L M : Lexicon}

/-- One lexicon is part of another. -/
structure Lexicon.Within (L M : Lexicon) : Prop where
  blank : ∀ c, L.blank c = true → M.blank c = true
  string : ∀ w, L.string w → M.string w
  number : ∀ w, L.number w → M.number w

theorem Lexicon.Within.mark (h : L.Within M) (c : Char) : L.mark c ≤ M.mark c :=
  mul_le_mul' (fun _ hw d hd => h.blank d (hw d hd)) le_rfl

theorem Lexicon.Within.listOf
    (h : L.Within M) {item item' : Language Char} (hitem : item ≤ item') :
    L.listOf item ≤ M.listOf item' :=
  add_le_add (mul_le_mul' hitem (kstar_mono (mul_le_mul' (h.mark ',') hitem))) le_rfl

theorem Lexicon.Within.quoted (h : L.Within M) : L.quoted ≤ M.quoted :=
  mul_le_mul' (h.mark '"') (mul_le_mul' h.string le_rfl)

theorem Lexicon.Within.object
    (h : L.Within M) {V W : Language Char} (hV : V ≤ W) : L.object V ≤ M.object W :=
  mul_le_mul' (h.mark _) (mul_le_mul'
    (h.listOf (mul_le_mul' h.quoted (mul_le_mul' (h.mark ':') hV))) (h.mark _))

theorem Lexicon.Within.value (h : L.Within M) (depth : ℕ) : L.value depth ≤ M.value depth := by
  have hblanks : L.blanks ≤ M.blanks := fun _ hw d hd => h.blank d (hw d hd)
  induction depth with
  | zero => exact le_rfl
  | succ depth ih =>
      exact add_le_add (h.object ih) (add_le_add
        (mul_le_mul' (h.mark _) (mul_le_mul' (h.listOf ih) (h.mark _)))
        (add_le_add h.quoted (add_le_add (mul_le_mul' hblanks h.number)
          (mul_le_mul' hblanks le_rfl))))

theorem Lexicon.Within.document (h : L.Within M) : L.document ≤ M.document :=
  iSup_mono fun depth => h.object (h.value depth)

end

theorem common_within_reader : commonLexicon.Within readerLexicon where
  blank := rfcLexicon.blank_isSpace
  string := rfcLexicon.string_raw
  number _ := fun ⟨n, hn, hplain, htext⟩ => Or.inl ⟨n, hn.toWellFormed, hplain, htext⟩

theorem common_within_rfc : commonLexicon.Within rfcLexicon where
  blank _ h := h
  string _ h := h
  number _ := fun ⟨n, hn, _, htext⟩ => ⟨n, hn, htext⟩

/-! ## One object in two lexicons -/

/-- What is a lexeme in both lexicons is one in the third, and ends in the same place. -/
structure Lexicon.MeetIn (L M K : Lexicon) : Prop where
  blank : ∀ c, L.blank c = true → M.blank c = true → K.blank c = true
  string : ∀ w, L.string w → M.string w → K.string w
  number : Aligned L.numbers M.numbers K.numbers Delimits

theorem apart_of_leads
    {l m : Language Char} {kind kind' : Char → Prop} (hl : Leads kind l) (hm : Leads kind' m)
    (hapart : ∀ c, kind c → ¬ kind' c) (k : Language Char) (follow : List Char → Prop) :
    Aligned l m k follow := by
  apply Aligned.apart
  intro u hu v hv r s heq
  obtain ⟨c, hc, hnext⟩ := hl u hu r
  obtain ⟨d, hd, hnext'⟩ := hm v hv s
  rw [heq] at hnext
  obtain rfl := hnext.unique hnext'
  exact hapart c hc hd

/-- Raw text ends at the first quote that is no part of an escape pair. -/
theorem raw_unique
    {u v r s : List Char} (hu : isRawText u = true) (hv : isRawText v = true)
    (heq : u ++ '"' :: r = v ++ '"' :: s) : u = v := by
  obtain ⟨pieces, hrun, rfl⟩ := many_textPiece_of_raw hu r
  obtain ⟨pieces', hrun', rfl⟩ := many_textPiece_of_raw hv s
  rw [heq] at hrun
  cases hrun.symm.trans hrun'
  rfl

section

variable {L M K : Lexicon} (h : L.MeetIn M K)

include h

theorem aligned_blanks
    {l m k : Language Char} {follow : List Char → Prop} (hwords : Aligned l m k follow)
    (hl : ∀ w ∈ l, ∃ c tail, w = c :: tail ∧ isSpace c = false)
    (hm : ∀ w ∈ m, ∃ c tail, w = c :: tail ∧ isSpace c = false) :
    Aligned (L.blanks * l) (M.blanks * m) (K.blanks * k) follow := by
  rintro _ ⟨b, hb, u, hu, rfl⟩ _ ⟨b', hb', v, hv, rfl⟩ r s hr hs heq
  simp only [List.append_assoc] at heq
  obtain ⟨c, utail, huc, hc⟩ := hl u hu
  obtain ⟨d, vtail, hvd, hd⟩ := hm v hv
  have hdrop := congrArg (List.dropWhile isSpace) heq
  rw [dropWhile_blanks (L.isSpace_of_blanks hb), dropWhile_blanks (M.isSpace_of_blanks hb'),
    huc, hvd, List.cons_append, List.cons_append, List.dropWhile_cons_of_neg (by simp [hc]),
    List.dropWhile_cons_of_neg (by simp [hd]), ← List.cons_append, ← List.cons_append,
    ← huc, ← hvd] at hdrop
  obtain ⟨rfl, hk⟩ := hwords u hu v hv r s hr hs hdrop
  have hblanks : b = b' := by
    rw [hdrop] at heq
    exact List.append_cancel_right heq
  subst hblanks
  exact ⟨rfl, Language.append_mem_mul (fun e he => h.blank e (hb e he) (hb' e he)) hk⟩

theorem aligned_mark {c : Char} (hc : isSpace c = false) (follow : List Char → Prop) :
    Aligned (L.mark c) (M.mark c) (K.mark c) follow := by
  apply aligned_blanks h (Aligned.singleton [c] follow)
  · rintro _ ⟨⟩
    exact ⟨c, [], rfl, hc⟩
  · rintro _ ⟨⟩
    exact ⟨c, [], rfl, hc⟩

theorem aligned_quoted (follow : List Char → Prop) :
    Aligned L.quoted M.quoted K.quoted follow := by
  refine (aligned_mark h (by decide) fun _ => True).mul ?_ (fun _ _ _ _ => trivial)
    fun _ _ _ _ => trivial
  rintro _ ⟨u, hu, _, ⟨⟩, rfl⟩ _ ⟨v, hv, _, ⟨⟩, rfl⟩ r s _ _ heq
  simp only [List.append_assoc, List.singleton_append] at heq
  obtain rfl := raw_unique (L.string_raw u hu) (M.string_raw v hv) heq
  exact ⟨rfl, Language.append_mem_mul (h.string u hu hv) rfl⟩

theorem aligned_listOf
    {l m k : Language Char} {close : Char} (hitem : Aligned l m k Closes)
    (hclose : close ∈ ['\x7d', ']'])
    (hl : Leads (fun c => c ∉ [',', ':', '\x7d', ']']) l)
    (hm : Leads (fun c => c ∉ [',', ':', '\x7d', ']']) m) :
    Aligned (L.listOf l) (M.listOf m) (K.listOf k) (Next [close]) := by
  have hnotclose : ∀ {N : Lexicon} {item : Language Char}, ∀ w ∈ N.mark ',' * item,
      ∀ r, ¬ Next [close] (w ++ r) := by
    intro N item w hw r hnext
    rw [← (closes_comma N item w hw r).unique hnext] at hclose
    revert hclose
    decide
  have hstar : Aligned (L.mark ',' * l)∗ (M.mark ',' * m)∗ (K.mark ',' * k)∗ (Next [close]) :=
    ((aligned_mark h (by decide) fun _ => True).mul hitem (fun _ _ _ _ => trivial)
      fun _ _ _ _ => trivial).kstar
      (fun w hw r => (closes_comma L l w hw r).mono (by simp))
      (fun w hw r => (closes_comma M m w hw r).mono (by simp))
      (fun r => closes_of_next hclose) hnotclose hnotclose
  have hempty : ∀ {item rest : Language Char}, Leads (fun c => c ∉ [',', ':', '\x7d', ']']) item →
      ∀ u ∈ item * rest, ∀ r s, Next [close] s → u ++ r ≠ s := by
    intro item rest hlead u hu r s hs heq
    obtain ⟨c, hc, hnext⟩ := (hlead.mul rest) u hu r
    rw [heq] at hnext
    rw [hnext.unique hs] at hc
    exact hc (List.mem_cons_of_mem _ (List.mem_cons_of_mem _ hclose))
  refine (hitem.mul hstar (closes_items L l hclose) (closes_items M m hclose)).add
    (Aligned.one _) ?_ ?_
  · rintro u hu _ ⟨⟩ r s _ hs heq
    exact absurd heq (hempty hl u hu r s hs)
  · rintro _ ⟨⟩ v hv r s hr _ heq
    exact absurd heq.symm (hempty hm v hv s r hr)

theorem aligned_object
    {l m k : Language Char} (hvalue : Aligned l m k Closes) (follow : List Char → Prop) :
    Aligned (L.object l) (M.object m) (K.object k) follow := by
  have hmember : Aligned (L.member l) (M.member m) (K.member k) Closes :=
    (aligned_quoted h fun _ => True).mul
      ((aligned_mark h (by decide) fun _ => True).mul hvalue (fun _ _ _ _ => trivial)
        fun _ _ _ _ => trivial)
      (fun _ _ _ _ => trivial) fun _ _ _ _ => trivial
  have hlead : ∀ (N : Lexicon) (item : Language Char),
      Leads (fun c => c ∉ [',', ':', '\x7d', ']']) (N.member item) := by
    intro N item
    refine ((leads_quoted N).mul _).mono ?_
    rintro c rfl
    decide
  exact (aligned_mark h (by decide) fun _ => True).mul
    ((aligned_listOf h hmember (by decide) (hlead L l) (hlead M m)).mul
      (aligned_mark h (by decide) follow) (fun w hw r _ => next_mark L '\x7d' (by decide) w hw r)
      fun w hw r _ => next_mark M '\x7d' (by decide) w hw r)
    (fun _ _ _ _ => trivial) fun _ _ _ _ => trivial

theorem aligned_array
    {l m k : Language Char} (hvalue : Aligned l m k Closes)
    (hl : Leads (fun c => c ∉ [',', ':', '\x7d', ']']) l)
    (hm : Leads (fun c => c ∉ [',', ':', '\x7d', ']']) m) (follow : List Char → Prop) :
    Aligned (L.array l) (M.array m) (K.array k) follow :=
  (aligned_mark h (by decide) fun _ => True).mul
    ((aligned_listOf h hvalue (by decide) hl hm).mul
      (aligned_mark h (by decide) follow) (fun w hw r _ => next_mark L ']' (by decide) w hw r)
      fun w hw r _ => next_mark M ']' (by decide) w hw r)
    (fun _ _ _ _ => trivial) fun _ _ _ _ => trivial

theorem aligned_literal (follow : List Char → Prop) :
    Aligned L.literal M.literal K.literal follow := by
  have hletters : ∀ w ∈ ({['t', 'r', 'u', 'e']} + {['f', 'a', 'l', 's', 'e']} : Language Char),
      ∃ c tail, w = c :: tail ∧ isSpace c = false := by
    rintro w (hw | hw) <;> rw [show w = _ from hw]
    · exact ⟨'t', _, rfl, by decide⟩
    · exact ⟨'f', _, rfl, by decide⟩
  apply aligned_blanks h _ hletters hletters
  apply (Aligned.singleton _ follow).add (Aligned.singleton _ follow)
  · apply Aligned.apart
    rintro _ ⟨⟩ _ ⟨⟩ r s heq
    cases heq
  · apply Aligned.apart
    rintro _ ⟨⟩ _ ⟨⟩ r s heq
    cases heq

theorem aligned_numberWord : Aligned L.numberWord M.numberWord K.numberWord Closes := by
  have hhead : ∀ (N : Lexicon), ∀ w ∈ N.numbers, ∃ c tail, w = c :: tail ∧ isSpace c = false := by
    intro N w hw
    obtain ⟨c, tail, rfl, hc, -⟩ := N.number_head w hw
    exact ⟨c, tail, rfl, hc⟩
  exact aligned_blanks h (h.number.weaken fun r => Closes.delimits) (hhead L) (hhead M)

/-- Two readings of one text as a value are the same reading. -/
theorem aligned_value (depth depth' : ℕ) :
    Aligned (L.value depth) (M.value depth') (K.value depth) Closes := by
  induction depth generalizing depth' with
  | zero => exact Aligned.zero _ _ _
  | succ depth ih =>
      cases depth' with
      | zero => exact Aligned.zero_right _ _ _
      | succ depth' =>
          have hvalue := ih depth'
          have hscalars : ∀ N : Lexicon, Leads (fun d => d ∉ structuralMarks ∨ d = 't' ∨ d = 'f')
              (N.numberWord + N.literal) := fun N =>
            ((leads_numberWord N).mono fun _ h => Or.inl h).add
              ((leads_literal N).mono fun _ h => Or.inr h)
          have hstrings : ∀ N : Lexicon, Leads (fun d => d ≠ '[' ∧ d ≠ '\x7b')
              (N.quoted + (N.numberWord + N.literal)) := fun N =>
            ((leads_quoted N).mono (by rintro c rfl; decide)).add ((hscalars N).mono fun c hc =>
              ⟨ne_of_scalar hc (by decide), ne_of_scalar hc (by decide)⟩)
          have harrays : ∀ (N : Lexicon) (item : Language Char), Leads (fun d => d ≠ '\x7b')
              (N.array item + (N.quoted + (N.numberWord + N.literal))) := fun N item =>
            ((leads_array N item).mono (by rintro c rfl; decide)).add
              ((hstrings N).mono fun c hc => hc.2)
          have hnumbers := (aligned_numberWord h).add (aligned_literal h Closes)
            (apart_of_leads (leads_numberWord L) (leads_literal M)
              (by rintro c hc (rfl | rfl) <;> exact hc (by decide)) _ _)
            (apart_of_leads (leads_literal L) (leads_numberWord M)
              (by rintro c (rfl | rfl) hc <;> exact hc (by decide)) _ _)
          have hquoted := (aligned_quoted h Closes).add hnumbers
            (apart_of_leads (leads_quoted L) (hscalars M)
              (by rintro c rfl; decide) _ _)
            (apart_of_leads (hscalars L) (leads_quoted M)
              (by rintro c hc rfl; exact ne_of_scalar hc (by decide) rfl) _ _)
          have harray := (aligned_array h hvalue (leads_value L depth) (leads_value M depth')
            Closes).add hquoted
            (apart_of_leads (leads_array L _) (hstrings M) (by rintro c rfl; decide) _ _)
            (apart_of_leads (hstrings L) (leads_array M _) (by rintro c hc rfl; exact hc.1 rfl) _ _)
          exact (aligned_object h hvalue Closes).add harray
            (apart_of_leads (leads_object L _) (harrays M _) (by rintro c rfl; decide) _ _)
            (apart_of_leads (harrays L _) (leads_object M _) (by rintro c hc rfl; exact hc rfl) _ _)

end

/-! ## The reader and the standard -/

theorem aligned_numbers :
    Aligned readerLexicon.numbers rfcLexicon.numbers commonLexicon.numbers Delimits := by
  rintro u hu _ ⟨n, hn, rfl⟩ r s hr hs heq
  rcases hu with ⟨n', hn', hplain, rfl⟩ | ⟨s', name, hs', hname, rfl⟩
  · have hread := takes_numeral hn' r hr
    rw [heq, takes_numeral hn.toWellFormed s hs] at hread
    cases hread
    exact ⟨rfl, n, hn, hplain, rfl⟩
  · exfalso
    obtain ⟨c, tail, rfl, hc⟩ := name_head hname
    obtain ⟨d, tail', hhead, hd⟩ := hn.head (exponentText n.exponent ++ s)
    have hletter : sign (s' ++ (c :: tail ++ r)) = some (s', c :: tail ++ r) :=
      takes_sign hs' fun _ => ends_cons.2 (isSign_of_toLower hc)
    have hdigit : sign (n.sign ++ (d :: tail')) = some (n.sign, d :: tail') :=
      takes_sign hn.sign fun _ => ends_cons.2 (not_isSign_of_head hd)
    rw [n.text_eq] at heq
    simp only [List.append_assoc] at heq
    rw [heq, hhead, hdigit] at hletter
    have hcd : d = c := (List.cons.inj (Prod.mk.inj (Option.some.inj hletter)).2).1
    rw [hcd] at hd
    exact of_decide_eq_false (not_letter_of_head hd) hc

theorem reader_meets_rfc : readerLexicon.MeetIn rfcLexicon commonLexicon where
  blank _ _ h := h
  string _ _ h := h
  number := aligned_numbers

/-- An object that a text begins with in both lexicons keeps to the common one. -/
theorem aligned_document :
    Aligned readerLexicon.document rfcLexicon.document commonLexicon.document fun _ => True := by
  intro u hu v hv r s hr hs heq
  obtain ⟨depth, hu⟩ := Language.mem_iSup.1 hu
  obtain ⟨depth', hv⟩ := Language.mem_iSup.1 hv
  obtain ⟨rfl, hcommon⟩ := aligned_object reader_meets_rfc
    (aligned_value reader_meets_rfc depth depth') (fun _ => True) u hu v hv r s hr hs heq
  exact ⟨rfl, Language.mem_iSup.2 ⟨depth, hcommon⟩⟩

/-- One object in the structure of RFC 8259, with nothing but blanks around it. -/
def IsRfcObject (text : String) : Prop :=
  text.toList ∈ rfcLexicon.document * rfcLexicon.blanks

/-- An object that the text begins with keeps to the common lexicon, and blanks follow it. -/
def KeepsToCommon (text : String) : Prop :=
  ∀ object rest, object ++ rest = text.toList →
    (object ∈ readerLexicon.document →
      object ∈ commonLexicon.document ∧ rest ∈ rfcLexicon.blanks) ∧
    (object ∈ rfcLexicon.document → rest ∈ rfcLexicon.blanks → object ∈ commonLexicon.document)

/-- The reader tells RFC objects from other texts where the common lexicon is kept to. -/
theorem read_accepts_iff
    (decimalText : List Char → String) {text : String} (htext : text ≠ "") :
    ((∃ ast, JsonReader.read decimalText text = .ok (some ast)) ↔ IsRfcObject text) ↔
      KeepsToCommon text := by
  rw [read_isSome_iff decimalText htext]
  constructor
  · intro hagree object rest happend
    constructor
    · intro hobject
      obtain ⟨v, hv, s, hs, hvs⟩ := hagree.1 ⟨object, hobject, rest, happend⟩
      obtain ⟨rfl, hcommon⟩ :=
        aligned_document object hobject v hv rest s trivial trivial (happend.trans hvs.symm)
      have hrest : rest = s := List.append_cancel_left (happend.trans hvs.symm)
      exact ⟨hcommon, hrest ▸ hs⟩
    · intro hobject hrest
      have hrfc : IsRfcObject text := ⟨object, hobject, rest, hrest, happend⟩
      obtain ⟨u, hu, r, hur⟩ := hagree.2 hrfc
      obtain ⟨rfl, hcommon⟩ :=
        aligned_document u hu object hobject r rest trivial trivial (hur.trans happend.symm)
      exact hcommon
  · intro hkeeps
    constructor
    · rintro ⟨object, hobject, rest, happend⟩
      obtain ⟨hcommon, hrest⟩ := (hkeeps object rest happend).1 hobject
      exact ⟨object, common_within_rfc.document hcommon, rest, hrest, happend⟩
    · rintro ⟨object, hobject, rest, hrest, happend⟩
      have hcommon := (hkeeps object rest happend).2 hobject hrest
      exact ⟨object, common_within_reader.document hcommon, rest, happend⟩

theorem read_accepts_iff_exponent :
    ((∃ ast, JsonReader.read String.ofList "\x7b\"a\":1e5\x7d" = .ok (some ast)) ↔
        IsRfcObject "\x7b\"a\":1e5\x7d") ↔
      KeepsToCommon "\x7b\"a\":1e5\x7d" :=
  read_accepts_iff String.ofList (by decide)

theorem braces_document : ['\x7b', '\x7d'] ∈ commonLexicon.document := by
  have hmark : ∀ c, [c] ∈ commonLexicon.mark c := fun c =>
    ⟨[], (fun d hd => absurd hd List.not_mem_nil), [c], rfl, rfl⟩
  refine Language.mem_iSup.2 ⟨0, ['\x7b'], hmark _, ['\x7d'], ?_, rfl⟩
  exact ⟨[], Or.inr rfl, ['\x7d'], hmark _, rfl⟩

/-- A second object behind the first one is not noticed. -/
theorem read_accepts_rest :
    ¬ ((∃ ast, JsonReader.read String.ofList "\x7b\x7d \x7b\x7d" = .ok (some ast)) ↔
        IsRfcObject "\x7b\x7d \x7b\x7d") := by
  rw [read_accepts_iff String.ofList (by decide)]
  intro hkeeps
  have hbraces := common_within_reader.document braces_document
  have hblank := ((hkeeps ['\x7b', '\x7d'] [' ', '\x7b', '\x7d'] (by decide)).1 hbraces).2
  exact absurd (hblank '\x7b' (by decide)) (by decide)

end ArtdaqDatabase
