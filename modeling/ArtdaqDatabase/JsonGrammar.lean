import ArtdaqDatabase.JsonNumber
import Mathlib.Order.CompletePartialOrder

/-!
# The language of JSON text

Objects and arrays over a lexicon: a choice of blanks, string texts and numbers.
Whatever the reader takes is a text over its own lexicon.
-/

namespace ArtdaqDatabase

open Scanner
open scoped Computability

/-! ## Lexicons and their languages -/

/-- The characters that begin a value of another kind, or follow a value. -/
def structuralMarks : List Char :=
  ['\x7b', '\x7d', '[', ']', '"', ',', ':', 't', 'f']

/-- The lexical choices of a dialect, kept apart from its structural marks. -/
structure Lexicon where
  blank : Char → Bool
  string : List Char → Prop
  number : List Char → Prop
  blank_isSpace : ∀ c, blank c = true → isSpace c = true
  string_raw : ∀ text, string text → isRawText text = true
  number_head : ∀ w, number w → ∃ c tail, w = c :: tail ∧ isSpace c = false ∧ c ∉ structuralMarks

namespace Lexicon

variable (L : Lexicon)

def blanks : Language Char :=
  {w | ∀ c ∈ w, L.blank c = true}

def mark (c : Char) : Language Char :=
  L.blanks * {[c]}

def strings : Language Char :=
  {w | L.string w}

def numbers : Language Char :=
  {w | L.number w}

def quoted : Language Char :=
  L.mark '"' * (L.strings * {['"']})

def listOf (item : Language Char) : Language Char :=
  item * (L.mark ',' * item)∗ + 1

def member (value : Language Char) : Language Char :=
  L.quoted * (L.mark ':' * value)

def object (value : Language Char) : Language Char :=
  L.mark '\x7b' * (L.listOf (L.member value) * L.mark '\x7d')

def array (value : Language Char) : Language Char :=
  L.mark '[' * (L.listOf value * L.mark ']')

def numberWord : Language Char :=
  L.blanks * L.numbers

def literal : Language Char :=
  L.blanks * ({['t', 'r', 'u', 'e']} + {['f', 'a', 'l', 's', 'e']})

/-- The values down to a depth of nesting. -/
def value : ℕ → Language Char
  | 0 => 0
  | depth + 1 =>
      L.object (value depth) + (L.array (value depth) + (L.quoted + (L.numberWord + L.literal)))

/-- The objects of any depth. -/
def document : Language Char :=
  ⨆ depth, L.object (L.value depth)

end Lexicon

theorem toNat_of_isSpace {c : Char} (hc : isSpace c = true) : c.toNat ≤ 32 := by
  simp only [isSpace, Bool.or_eq_true, decide_eq_true_eq] at hc
  rcases hc with rfl | hc
  · decide
  · omega

theorem not_structural_of_head {c : Char} (hc : c.isDigit = true ∨ c = '.') :
    isSpace c = false ∧ c ∉ structuralMarks := by
  rcases hc with hc | rfl
  · constructor
    · by_contra hspace
      have hle := toNat_of_isSpace (Bool.not_eq_false _ ▸ hspace)
      have hge : 48 ≤ c.toNat := (Char.isDigit_iff_toNat.1 hc).1
      omega
    · intro hmem
      simp only [structuralMarks, List.mem_cons, List.not_mem_nil, or_false] at hmem
      rcases hmem with rfl | rfl | rfl | rfl | rfl | rfl | rfl | rfl | rfl <;>
        exact absurd hc (by decide)
  · decide

theorem not_structural_of_letter {c : Char} (hc : c.toLower = 'n' ∨ c.toLower = 'i') :
    isSpace c = false ∧ c ∉ structuralMarks := by
  constructor
  · by_contra hspace
    have hle := toNat_of_isSpace (Bool.not_eq_false _ ▸ hspace)
    rw [toLower_eq_self (by omega)] at hc
    rcases hc with rfl | rfl <;> exact absurd hspace (by decide)
  · intro hmem
    simp only [structuralMarks, List.mem_cons, List.not_mem_nil, or_false] at hmem
    rcases hmem with rfl | rfl | rfl | rfl | rfl | rfl | rfl | rfl | rfl <;>
      exact absurd hc (by decide)

theorem signed_head {s : List Char} (hs : s ∈ signs) {c : Char} {tail : List Char}
    (hc : isSpace c = false ∧ c ∉ structuralMarks) :
    ∃ d rest, s ++ c :: tail = d :: rest ∧ isSpace d = false ∧ d ∉ structuralMarks := by
  simp only [signs, List.mem_cons, List.not_mem_nil, or_false] at hs
  rcases hs with rfl | rfl | rfl
  · exact ⟨c, tail, rfl, hc⟩
  · exact ⟨'+', c :: tail, rfl, by decide⟩
  · exact ⟨'-', c :: tail, rfl, by decide⟩

theorem numeral_head {n : Numeral} (hn : n.WellFormed) :
    ∃ c tail, n.text = c :: tail ∧ isSpace c = false ∧ c ∉ structuralMarks := by
  obtain ⟨c, tail, hhead, hc⟩ := hn.head (exponentText n.exponent)
  rw [n.text_eq, hhead]
  exact signed_head hn.sign (not_structural_of_head hc)

theorem readsNumber_head {w : List Char} (hw : ReadsNumber w) :
    ∃ c tail, w = c :: tail ∧ isSpace c = false ∧ c ∉ structuralMarks := by
  rcases hw with ⟨n, hn, -, rfl⟩ | ⟨s, name, hs, hname, rfl⟩
  · exact numeral_head hn
  · obtain ⟨c, tail, rfl, hc⟩ := name_head hname
    exact signed_head hs (not_structural_of_letter hc)

/-- The lexicon of the reader. -/
def readerLexicon : Lexicon where
  blank := isSpace
  string text := isRawText text = true
  number := ReadsNumber
  blank_isSpace _ h := h
  string_raw _ h := h
  number_head _ := readsNumber_head

/-! ## What the reader takes -/

theorem sound_lit (c : Char) : Sound (lit c) (readerLexicon.mark c) := by
  refine (sound_skipWhile isSpace).bind fun _ => ?_
  intro input d rest h
  obtain ⟨rfl, hd⟩ := satisfy_eq_some.1 h
  have hdc : d = c := of_decide_eq_true hd
  exact ⟨[c], rfl, by rw [hdc]; rfl⟩

/-- The blanks that are passed over belong to the word. -/
theorem append_blanks
    {input w rest : List Char} {l : Language Char} (hinput : input.dropWhile isSpace = w ++ rest)
    (hw : w ∈ l) : ∃ word ∈ readerLexicon.blanks * l, word ++ rest = input := by
  refine ⟨input.takeWhile isSpace ++ w, Language.append_mem_mul ?_ hw, ?_⟩
  · exact List.all_eq_true.1 List.all_takeWhile
  · rw [List.append_assoc, ← hinput, List.takeWhile_append_dropWhile]

theorem sound_quotedString : Sound quotedString readerLexicon.quoted := by
  intro input s rest h
  obtain ⟨text, hinput, hraw, -⟩ := quotedString_eq_some h
  have hword : ['"'] ++ (text ++ ['"']) ∈ ({['"']} * (readerLexicon.strings * {['"']}) : Language Char) :=
    Language.append_mem_mul rfl (Language.append_mem_mul hraw rfl)
  rw [Lexicon.quoted, Lexicon.mark, mul_assoc]
  exact append_blanks (by rw [hinput]; simp) hword

theorem sound_dataRule
    {value : Scanner Char Value} {V : Language Char} (hV : Sound value V) :
    Sound (dataRule value) (readerLexicon.member V) :=
  sound_quotedString.bind fun key => (sound_lit ':').bind fun _ => hV.returns fun v => (key, v)

theorem sound_listOf
    {α : Type} {item : Scanner Char α} {V : Language Char} (hV : Sound item V) :
    Sound (orDefault (sepBy1 item (lit ',')) []) (readerLexicon.listOf V) := by
  have hmore : Sound (many (lit ',' >>= fun _ => item)) (readerLexicon.mark ',' * V)∗ :=
    Sound.many ((sound_lit ',').bind fun _ => hV)
  exact Sound.orElse (hV.bind fun a => hmore.returns fun as => a :: as) (Sound.pure _)

theorem sound_objectRule
    {value : Scanner Char Value} {V : Language Char} (hV : Sound value V) :
    Sound (objectRule value) (readerLexicon.object V) :=
  (sound_lit '\x7b').bind fun _ => (sound_listOf (sound_dataRule hV)).bind fun members =>
    (sound_lit '\x7d').returns fun _ => members

theorem sound_arrayRule
    {value : Scanner Char Value} {V : Language Char} (hV : Sound value V) :
    Sound (arrayRule value) (readerLexicon.array V) :=
  (sound_lit '[').bind fun _ => (sound_listOf hV).bind fun values =>
    (sound_lit ']').returns fun _ => values

theorem word_eq_some {letters input rest : List Char} {u : Unit} :
    word letters input = some (u, rest) ↔ letters ++ rest = input := by
  induction letters generalizing input with
  | nil =>
      constructor
      · intro h
        cases h
        rfl
      · rintro rfl
        rfl
  | cons c letters ih =>
      unfold word
      rw [bind_eq_some]
      constructor
      · rintro ⟨d, middle, hd, h⟩
        obtain ⟨rfl, hdc⟩ := satisfy_eq_some.1 hd
        rw [← of_decide_eq_true hdc, ← ih.1 h]
        rfl
      · rintro rfl
        exact ⟨c, letters ++ rest, satisfy_eq_some.2 ⟨rfl, decide_eq_true rfl⟩, ih.2 rfl⟩

theorem sound_bool : Sound bool readerLexicon.literal := by
  have hword : ∀ letters, Sound (word letters) {letters} := by
    intro letters input u rest h
    exact ⟨letters, rfl, word_eq_some.1 h⟩
  exact (sound_skipWhile isSpace).bind fun _ => ((hword _).map _).orElse ((hword _).map _)

section

variable (decimalText : List Char → String)

theorem sound_numberRule
    {otherwise : Scanner Char Value} {l : Language Char} (h : Sound otherwise l) :
    Sound (numberRule decimalText otherwise) (readerLexicon.numberWord + l) := by
  intro input v rest hrun
  cases numberRule_eq_some decimalText hrun with
  | inl hnumber =>
      obtain ⟨w, hw, hinput⟩ := hnumber
      obtain ⟨word, hword, happend⟩ := append_blanks (l := readerLexicon.numbers) hinput hw
      exact ⟨word, Or.inl hword, happend⟩
  | inr hother =>
      obtain ⟨w, hw, happend⟩ := h input v rest hother
      exact ⟨w, Or.inr hw, happend⟩

/-- Every value that is read is a text over the lexicon. -/
theorem sound_valueRule (depth : ℕ) :
    Sound (valueRule decimalText depth) (readerLexicon.value depth) := by
  induction depth with
  | zero =>
      intro input v rest h
      cases h
  | succ depth ih =>
      exact ((sound_objectRule ih).map _).orElse (((sound_arrayRule ih).map _).orElse
        ((sound_quotedString.map _).orElse (sound_numberRule decimalText (sound_bool.map _))))

end

/-! ## The first mark of a word -/

/-- Blanks aside, every word begins with such a character. -/
def Leads (kind : Char → Prop) (l : Language Char) : Prop :=
  ∀ w ∈ l, ∀ rest, ∃ c, kind c ∧ Next [c] (w ++ rest)

section

variable {kind kind' : Char → Prop} {l m : Language Char}

theorem Leads.mono (h : Leads kind l) (himp : ∀ c, kind c → kind' c) : Leads kind' l := by
  intro w hw rest
  obtain ⟨c, hc, hnext⟩ := h w hw rest
  exact ⟨c, himp c hc, hnext⟩

theorem Leads.mul (h : Leads kind l) (m : Language Char) : Leads kind (l * m) := by
  rintro _ ⟨u, hu, v, hv, rfl⟩ rest
  rw [show (fun x y => x ++ y) u v ++ rest = u ++ (v ++ rest) from List.append_assoc u v rest]
  exact h u hu (v ++ rest)

theorem Leads.add (hl : Leads kind l) (hm : Leads kind m) : Leads kind (l + m) := by
  intro w hw rest
  cases (Language.mem_add l m w).1 hw with
  | inl h => exact hl w h rest
  | inr h => exact hm w h rest

end

section

variable (L : Lexicon)

theorem Lexicon.isSpace_of_blanks {b : List Char} (hb : b ∈ L.blanks) :
    ∀ c ∈ b, isSpace c = true :=
  fun c hc => L.blank_isSpace c (hb c hc)

theorem leads_blanks {words : Language Char} {kind : Char → Prop}
    (h : ∀ w ∈ words, ∃ c tail, w = c :: tail ∧ isSpace c = false ∧ kind c) :
    Leads kind (L.blanks * words) := by
  rintro _ ⟨b, hb, w, hw, rfl⟩ rest
  obtain ⟨c, tail, rfl, hc, hkind⟩ := h w hw
  refine ⟨c, hkind, ?_⟩
  rw [show (fun x y => x ++ y) b (c :: tail) ++ rest = b ++ (c :: (tail ++ rest)) from
    List.append_assoc b _ rest, next_blanks (L.isSpace_of_blanks hb), next_cons hc]
  exact List.mem_cons_self

theorem leads_mark {c : Char} (hc : isSpace c = false) : Leads (fun d => d = c) (L.mark c) := by
  apply leads_blanks
  rintro _ ⟨⟩
  exact ⟨c, [], rfl, hc, rfl⟩

theorem leads_quoted : Leads (fun d => d = '"') L.quoted :=
  (leads_mark L (by decide)).mul _

theorem leads_object (V : Language Char) : Leads (fun d => d = '\x7b') (L.object V) :=
  (leads_mark L (by decide)).mul _

theorem leads_array (V : Language Char) : Leads (fun d => d = '[') (L.array V) :=
  (leads_mark L (by decide)).mul _

theorem leads_numberWord : Leads (fun d => d ∉ structuralMarks) L.numberWord :=
  leads_blanks L L.number_head

theorem leads_literal : Leads (fun d => d = 't' ∨ d = 'f') L.literal := by
  apply leads_blanks
  rintro w (hw | hw) <;> rw [show w = _ from hw]
  · exact ⟨'t', _, rfl, by decide, Or.inl rfl⟩
  · exact ⟨'f', _, rfl, by decide, Or.inr rfl⟩

/-- No value begins with a mark that may follow one. -/
theorem leads_value (depth : ℕ) :
    Leads (fun d => d ∉ [',', ':', '\x7d', ']']) (L.value depth) := by
  cases depth with
  | zero => exact fun w hw => absurd hw (Language.notMem_zero w)
  | succ depth =>
      refine ((leads_object L _).mono ?_).add (((leads_array L _).mono ?_).add
        (((leads_quoted L).mono ?_).add (((leads_numberWord L).mono ?_).add
          ((leads_literal L).mono ?_))))
      · rintro c rfl; decide
      · rintro c rfl; decide
      · rintro c rfl; decide
      · intro c hc hmem
        apply hc
        simp only [List.mem_cons, List.not_mem_nil, or_false] at hmem
        rcases hmem with rfl | rfl | rfl | rfl <;> decide
      · rintro c (rfl | rfl) <;> decide

end

end ArtdaqDatabase
