import ArtdaqDatabase.JsonGrammar

/-!
# What is sure to be read

Every text over the lexicon of the reader is taken up to its end, if a separator
or a closing mark follows it.  With the converse this settles which texts are
read, whatever the depth that the rules were given.
-/

namespace ArtdaqDatabase

open Scanner
open scoped Computability

/-! ## What the reader is sure to take -/

/-- A separator or a closing mark is next. -/
def Closes (rest : List Char) : Prop :=
  Next [',', '\x7d', ']'] rest

theorem closes_of_next {r : Char} (hr : r ∈ ['\x7d', ']']) {rest : List Char}
    (hrest : Next [r] rest) : Closes rest := by
  apply hrest.mono
  intro c hc
  rw [List.mem_singleton.1 hc]
  exact List.mem_cons_of_mem _ hr

theorem closes_comma (L : Lexicon) (item : Language Char) :
    ∀ w ∈ L.mark ',' * item, ∀ rest, Next [','] (w ++ rest) := by
  intro w hw rest
  obtain ⟨c, rfl, hnext⟩ := (leads_mark L (by decide)).mul item w hw rest
  exact hnext

/-- More items or the closing mark: either way an item ends here. -/
theorem closes_items
    (L : Lexicon) (item : Language Char) {close : Char} (hclose : close ∈ ['\x7d', ']']) :
    ∀ w ∈ (L.mark ',' * item)∗, ∀ rest, Next [close] rest → Closes (w ++ rest) := by
  intro w hw rest hrest
  rw [← Language.one_add_self_mul_kstar_eq_kstar] at hw
  rcases hw with hw | ⟨u, hu, v, hv, rfl⟩
  · rw [(Language.mem_one w).1 hw]
    exact closes_of_next hclose hrest
  · have h := closes_comma L item u hu (v ++ rest)
    rw [← List.append_assoc] at h
    exact h.mono (by simp)

theorem Closes.ends
    {rest : List Char} (h : Closes rest) {kind : Char → Bool}
    (hspace : ∀ c, isSpace c = true → kind c = false)
    (hmarks : [',', '\x7d', ']'].all (fun c => !kind c) = true) : Ends kind rest := by
  intro c hc
  cases hspaces : isSpace c with
  | true => exact hspace c hspaces
  | false =>
      obtain ⟨d, hd, hhead⟩ := h
      cases rest with
      | nil => cases hc
      | cons e rest =>
          cases hc
          rw [List.dropWhile_cons_of_neg (by simp [hspaces])] at hhead
          cases hhead
          simpa using List.all_eq_true.1 hmarks c hd

theorem Closes.delimits {rest : List Char} (h : Closes rest) : Delimits rest := by
  have hle : ∀ {c}, isSpace c = true → c.toNat ≤ 32 := toNat_of_isSpace
  constructor
  · apply h.ends _ (by decide)
    intro c hc
    rw [isSign, decide_eq_false_iff_not]
    rintro (rfl | rfl) <;> exact absurd hc (by decide)
  · apply h.ends _ (by decide)
    intro c hc
    by_contra hdigit
    have hge : 48 ≤ c.toNat := (Char.isDigit_iff_toNat.1 (Bool.not_eq_false _ ▸ hdigit)).1
    have := hle hc
    omega
  · apply h.ends _ (by decide)
    intro c hc
    rw [decide_eq_false_iff_not]
    rintro rfl
    exact absurd hc (by decide)
  · apply h.ends _ (by decide)
    intro c hc
    rw [isExponentMark, decide_eq_false_iff_not]
    rintro (rfl | rfl) <;> exact absurd hc (by decide)
  · apply h.ends _ (by decide)
    intro c hc
    rw [decide_eq_false_iff_not]
    rintro rfl
    exact absurd hc (by decide)
  · apply h.ends _ (by decide)
    intro c hc
    have := hle hc
    rw [toLower_eq_self (by omega), decide_eq_false_iff_not]
    rintro rfl
    exact absurd hc (by decide)

theorem Closes.point {rest : List Char} (h : Closes rest) : lit '.' rest = none :=
  lit_fails h (by decide)

/-- `p` does not start on such a character. -/
def Refuses {α : Type} (kind : Char → Prop) (p : Scanner Char α) : Prop :=
  ∀ input c, kind c → Next [c] input → p input = none

theorem refuses_lit {α : Type} (c : Char) (f : Char → Scanner Char α) :
    Refuses (fun d => d ≠ c) (lit c >>= f) := by
  intro input d hd hnext
  apply bind_failed
  apply lit_fails hnext
  rw [List.mem_singleton]
  exact fun h => hd h.symm

theorem Refuses.bind
    {α β : Type} {kind : Char → Prop} {p : Scanner Char α} (hp : Refuses kind p)
    (f : α → Scanner Char β) : Refuses kind (p >>= f) :=
  fun input c hc hnext => bind_failed (hp input c hc hnext) f

theorem Refuses.map
    {α β : Type} {kind : Char → Prop} {p : Scanner Char α} (hp : Refuses kind p) (f : α → β) :
    Refuses kind (f <$> p) := by
  intro input c hc hnext
  rw [run_map, hp input c hc hnext]
  rfl

theorem Refuses.head
    {α : Type} {kind : Char → Prop} {p : Scanner Char α} (hp : Refuses kind p)
    {c : Char} (hspace : isSpace c = false) (hc : kind c) (tail : List Char) :
    p (c :: tail) = none :=
  hp (c :: tail) c hc ((next_cons hspace _ _).2 List.mem_cons_self)

theorem Refuses.on
    {α : Type} {kind : Char → Prop} {p : Scanner Char α} {l : Language Char}
    (hp : Refuses kind p) (hl : Leads kind l) (follow : List Char → Prop) :
    ∀ w ∈ l, ∀ rest, follow rest → p (w ++ rest) = none := by
  intro w hw rest _
  obtain ⟨c, hc, hnext⟩ := hl w hw rest
  exact hp _ c hc hnext

theorem complete_lit {c : Char} (hc : isSpace c = false) (follow : List Char → Prop) :
    Complete (lit c) (readerLexicon.mark c) follow := by
  rintro _ ⟨b, hb, _, ⟨⟩, rfl⟩
  exact ⟨c, takes_lit hc hb follow⟩

theorem complete_quotedString (follow : List Char → Prop) :
    Complete quotedString readerLexicon.quoted follow := by
  rintro _ ⟨_, ⟨b, hb, _, ⟨⟩, rfl⟩, _, ⟨text, htext, _, ⟨⟩, rfl⟩, rfl⟩
  exact ⟨_, takes_quotedString hb htext follow⟩

theorem complete_dataRule
    {value : Scanner Char Value} {V : Language Char} {follow : List Char → Prop}
    (hV : Complete value V follow) : Complete (dataRule value) (readerLexicon.member V) follow := by
  exact (complete_quotedString fun _ => True).bind
    (fun key => (complete_lit (by decide) fun _ => True).bind
      (fun _ => hV.returns fun v => (key, v)) fun _ _ _ _ => trivial)
    fun _ _ _ _ => trivial

/-- A list is taken up to its closing mark. -/
theorem complete_listOf
    {α : Type} {item : Scanner Char α} {V : Language Char} {close : Char}
    (hitem : Complete item V Closes) (hsound : Sound item V) (hclose : close ∈ ['\x7d', ']'])
    (hrefuses : Refuses (fun c => c = close) item) :
    Complete (orDefault (sepBy1 item (lit ',')) []) (readerLexicon.listOf V) (Next [close]) := by
  have hmany : Complete (many (lit ',' >>= fun _ => item)) (readerLexicon.mark ',' * V)∗
      (Next [close]) := by
    refine Complete.many
      ((complete_lit (by decide) fun _ => True).bind (fun _ => hitem) fun _ _ _ _ => trivial)
      ((consumes_lit ',').bind fun _ => hsound.shrinks)
      (fun w hw rest => (closes_comma _ _ w hw rest).mono (by simp))
      (fun rest => closes_of_next hclose) ?_
    intro rest hrest
    refine refuses_lit ',' _ rest close ?_ hrest
    rintro rfl
    revert hclose
    decide
  have hsepBy : Complete (sepBy1 item (lit ',')) (V * (readerLexicon.mark ',' * V)∗)
      (Next [close]) :=
    hitem.bind (fun a => hmany.returns fun as => a :: as) (closes_items _ _ hclose)
  refine hsepBy.orElse (Complete.pure [] _) ?_
  rintro _ ⟨⟩ rest hrest
  exact hrefuses.bind _ rest close rfl hrest

theorem next_mark (L : Lexicon) (c : Char) (hc : isSpace c = false) :
    ∀ w ∈ L.mark c, ∀ rest, Next [c] (w ++ rest) := by
  intro w hw rest
  obtain ⟨d, rfl, hnext⟩ := leads_mark L hc w hw rest
  exact hnext

theorem refuses_dataRule (value : Scanner Char Value) :
    Refuses (fun c => c = '\x7d') (dataRule value) := by
  rintro input c rfl hnext
  exact bind_failed (refuses_lit '"' _ input '\x7d' (by decide) hnext) _

theorem complete_objectRule
    {value : Scanner Char Value} {V : Language Char}
    (hV : Complete value V Closes) (hsound : Sound value V) (follow : List Char → Prop) :
    Complete (objectRule value) (readerLexicon.object V) follow := by
  exact (complete_lit (by decide) fun _ => True).bind
    (fun _ => (complete_listOf (complete_dataRule hV) (sound_dataRule hsound) (by decide)
      (refuses_dataRule value)).bind (fun members => (complete_lit (by decide) follow).returns fun _ => members)
      fun w hw rest _ => next_mark _ '\x7d' (by decide) w hw rest)
    fun _ _ _ _ => trivial

theorem complete_arrayRule
    {value : Scanner Char Value} {V : Language Char}
    (hV : Complete value V Closes) (hsound : Sound value V)
    (hrefuses : Refuses (fun c => c = ']') value) (follow : List Char → Prop) :
    Complete (arrayRule value) (readerLexicon.array V) follow := by
  exact (complete_lit (by decide) fun _ => True).bind
    (fun _ => (complete_listOf hV hsound (by decide) hrefuses).bind
      (fun values => (complete_lit (by decide) follow).returns fun _ => values)
      fun w hw rest _ => next_mark _ ']' (by decide) w hw rest)
    fun _ _ _ _ => trivial

theorem word_fails {c d : Char} {letters input : List Char} (h : d ≠ c) :
    word (c :: letters) (d :: input) = none := by
  unfold word
  apply bind_failed
  simp [char, satisfy_cons, h]

def flagText : Bool → List Char
  | true => ['t', 'r', 'u', 'e']
  | false => ['f', 'a', 'l', 's', 'e']

theorem takes_bool
    (flag : Bool) {blanks : List Char} (hblanks : ∀ c ∈ blanks, isSpace c = true)
    (follow : List Char → Prop) : Takes bool (blanks ++ flagText flag) flag follow := by
  intro rest _
  have hskip : skip (blanks ++ flagText flag ++ rest) = some ((), flagText flag ++ rest) := by
    rw [run_skip, List.append_assoc, dropWhile_blanks hblanks]
    cases flag <;> rfl
  have hword : word (flagText flag) (flagText flag ++ rest) = some ((), rest) :=
    word_eq_some.2 rfl
  unfold bool
  rw [bind_taken hskip]
  cases flag with
  | true => exact orElse_taken (by rw [run_map, show word ['t', 'r', 'u', 'e'] _ = _ from hword]; rfl) _
  | false =>
      rw [orElse_failed, run_map, show word ['f', 'a', 'l', 's', 'e'] _ = _ from hword]
      · rfl
      · rw [run_map, flagText, List.cons_append, word_fails (by decide)]
        rfl

theorem complete_bool (follow : List Char → Prop) : Complete bool readerLexicon.literal follow := by
  rintro _ ⟨b, hb, letters, hletters, rfl⟩
  cases hletters with
  | inl h =>
      rw [show letters = _ from h]
      exact ⟨true, takes_bool true hb follow⟩
  | inr h =>
      rw [show letters = _ from h]
      exact ⟨false, takes_bool false hb follow⟩

theorem next_head {c : Char} {input : List Char} (hnext : Next [c] input) :
    ∃ tail, input.dropWhile isSpace = c :: tail := by
  obtain ⟨d, hd, hhead⟩ := hnext
  rw [List.mem_singleton.1 hd] at hhead
  exact List.head?_eq_some_iff.1 hhead

theorem refuses_bool : Refuses (fun c => c ≠ 't' ∧ c ≠ 'f') bool := by
  intro input c hc hnext
  obtain ⟨tail, hinput⟩ := next_head hnext
  unfold bool
  rw [bind_taken (run_skip input), hinput, run_orElse, run_map, run_map, word_fails hc.1,
    word_fails hc.2]
  rfl

/-- Neither number alternative starts on such a character. -/
theorem refuses_number {c : Char} (hspace : isSpace c = false) (hsign : isSign c = false)
    (hdigit : c.isDigit = false) (hpoint : c ≠ '.')
    (hletter : decide (c.toLower = 'n' ∨ c.toLower = 'i') = false)
    {input : List Char} (hnext : Next [c] input) : integerRule input = none ∧ double input = none := by
  obtain ⟨tail, hinput⟩ := next_head hnext
  constructor
  · have hsplit : input.dropWhile isSpace = [] ++ ([] ++ c :: tail) := hinput
    rw [run_integerRule hsplit (by decide)
      (fun _ => ends_cons.2 hsign) (fun c hc => absurd hc List.not_mem_nil)
      (ends_cons.2 hdigit), if_neg fun h => h.1 rfl]
  · unfold double
    rw [bind_taken (run_skip input), hinput, orElse_failed]
    · rw [run_map]
      cases hn : numeral (c :: tail) with
      | none => rfl
      | some x =>
          obtain ⟨happend, hwell⟩ := numeral_eq_some hn
          obtain ⟨e, rest, hhead, he⟩ := hwell.head (exponentText x.1.exponent ++ x.2)
          rw [x.1.text_eq] at happend
          simp only [List.append_assoc] at happend
          rw [hhead] at happend
          have hsigns := hwell.sign
          simp only [signs, List.mem_cons, List.not_mem_nil, or_false] at hsigns
          rcases hsigns with hs | hs | hs <;> rw [hs] at happend <;> cases happend
          · rcases he with he | he
            · rw [he] at hdigit
              cases hdigit
            · exact absurd he hpoint
          · cases hsign
          · cases hsign
    · exact notANumber_fails (s := []) (by decide) (fun _ => ends_cons.2 hsign)
        (ends_cons.2 hletter)

section

variable (decimalText : List Char → String)

theorem complete_numberRule :
    Complete (numberRule decimalText (Value.boolean <$> bool))
      (readerLexicon.numberWord + readerLexicon.literal) Closes := by
  rintro w (hnumber | hliteral)
  · obtain ⟨b, hb, digits, hdigits, rfl⟩ := hnumber
    obtain ⟨v, hv⟩ := numberRule_taken decimalText (Value.boolean <$> bool) hdigits
    refine ⟨v, fun rest hrest => hv _ rest hrest.delimits hrest.point ?_⟩
    obtain ⟨c, tail, rfl, hc, -⟩ := readsNumber_head hdigits
    change ((b ++ c :: tail) ++ rest).dropWhile isSpace = _
    rw [List.append_assoc, dropWhile_blanks hb, List.cons_append,
      List.dropWhile_cons_of_neg (by simp [hc])]
  · obtain ⟨flag, hflag⟩ := complete_bool Closes w hliteral
    have hrefused : ∀ rest, integerRule (w ++ rest) = none ∧ double (w ++ rest) = none := by
      intro rest
      obtain ⟨c, rfl | rfl, hnext⟩ := leads_literal readerLexicon w hliteral rest
      · exact refuses_number (by decide) (by decide) (by decide) (by decide) (by decide) hnext
      · exact refuses_number (by decide) (by decide) (by decide) (by decide) (by decide) hnext
    refine ⟨.boolean flag, ((hflag.map Value.boolean).otherwise ?_).otherwise ?_⟩
    · intro rest _
      rw [run_map, (hrefused rest).2]
      rfl
    · intro rest _
      rw [run_map, (hrefused rest).1]
      rfl

theorem ne_of_scalar
    {c mark : Char} (hc : c ∉ structuralMarks ∨ c = 't' ∨ c = 'f')
    (hmark : mark ∈ ['"', '[', '\x7b']) : c ≠ mark := by
  rintro rfl
  simp only [List.mem_cons, List.not_mem_nil, or_false] at hmark
  rcases hmark with rfl | rfl | rfl <;> exact absurd hc (by decide)

/-- No value begins with a closing mark. -/
theorem refuses_valueRule (depth : ℕ) :
    Refuses (fun c => c = ']') (valueRule decimalText depth) := by
  cases depth with
  | zero => exact fun _ _ _ _ => rfl
  | succ depth =>
      rintro input c rfl hnext
      obtain ⟨hinteger, hdouble⟩ := refuses_number (c := ']') (by decide) (by decide) (by decide)
        (by decide) (by decide) hnext
      have hobject : objectRule (valueRule decimalText depth) input = none :=
        refuses_lit '\x7b' _ input ']' (by decide) hnext
      have harray : arrayRule (valueRule decimalText depth) input = none :=
        refuses_lit '[' _ input ']' (by decide) hnext
      have hstring : quotedString input = none :=
        refuses_lit '"' _ input ']' (by decide) hnext
      have hbool : bool input = none :=
        refuses_bool input ']' (by decide) hnext
      unfold valueRule
      simp only [run_orElse, run_map, hobject, harray, hstring, hinteger, hdouble, hbool]
      rfl

/-- Every text over the lexicon is read as a value. -/
theorem complete_valueRule (depth : ℕ) :
    Complete (valueRule decimalText depth) (readerLexicon.value depth) Closes := by
  induction depth with
  | zero => exact fun w hw => absurd hw (Language.notMem_zero w)
  | succ depth ih =>
      have hsound := sound_valueRule decimalText depth
      have hobject := complete_objectRule ih hsound Closes
      have harray := complete_arrayRule ih hsound (refuses_valueRule decimalText depth) Closes
      have hscalars := complete_numberRule decimalText
      have hleads : Leads (fun d => d ∉ structuralMarks ∨ d = 't' ∨ d = 'f')
          (readerLexicon.numberWord + readerLexicon.literal) :=
        ((leads_numberWord readerLexicon).mono fun _ h => Or.inl h).add
          ((leads_literal readerLexicon).mono fun _ h => Or.inr h)
      refine (hobject.map _).orElse ((harray.map _).orElse
        (((complete_quotedString Closes).map _).orElse hscalars ?_) ?_) ?_
      · have hrefuses : Refuses (fun d => d ≠ '"') quotedString := refuses_lit '"' _
        exact (hrefuses.map _).on (hleads.mono fun c hc => ne_of_scalar hc (by decide)) Closes
      · have hrefuses : Refuses (fun d => d ≠ '[') (arrayRule (valueRule decimalText depth)) :=
          refuses_lit '[' _
        apply (hrefuses.map _).on
        refine ((leads_quoted readerLexicon).mono ?_).add
          (hleads.mono fun c hc => ne_of_scalar hc (by decide))
        rintro c rfl
        decide
      · have hrefuses : Refuses (fun d => d ≠ '\x7b') (objectRule (valueRule decimalText depth)) :=
          refuses_lit '\x7b' _
        apply (hrefuses.map _).on
        refine ((leads_array readerLexicon _).mono ?_).add
          (((leads_quoted readerLexicon).mono ?_).add
            (hleads.mono fun c hc => ne_of_scalar hc (by decide)))
        · rintro c rfl
          decide
        · rintro c rfl
          decide

/-! ## The depth does not matter -/

theorem agree_listOf
    {α : Type} {n : ℕ} {p q : Scanner Char α} {l : Language Char}
    (h : AgreeUpTo n p q) (hsound : Sound p l) :
    AgreeUpTo n (orDefault (sepBy1 p (lit ',')) []) (orDefault (sepBy1 q (lit ',')) []) := by
  have hmore : AgreeUpTo n (lit ',' >>= fun _ => p) (lit ',' >>= fun _ => q) :=
    (AgreeUpTo.refl n _).bind (consumes_lit ',').shrinks fun _ => h
  have hshrinks : Shrinks (lit ',' >>= fun _ => p) :=
    (consumes_lit ',').shrinks.bind fun _ => hsound.shrinks
  exact (h.bind hsound.shrinks fun _ => (hmore.many hshrinks).bind hshrinks.many
    fun _ => AgreeUpTo.refl n _).orElse (AgreeUpTo.refl n _)

theorem agree_dataRule
    {n : ℕ} {p q : Scanner Char Value} (h : AgreeUpTo n p q) {l : Language Char}
    (hsound : Sound p l) : AgreeUpTo n (dataRule p) (dataRule q) :=
  (AgreeUpTo.refl n _).bind sound_quotedString.shrinks fun _ =>
    (AgreeUpTo.refl n _).bind (consumes_lit ':').shrinks fun _ =>
      h.bind hsound.shrinks fun _ => AgreeUpTo.refl n _

theorem agree_objectRule
    {n : ℕ} {p q : Scanner Char Value} (h : AgreeUpTo n p q) {l : Language Char}
    (hsound : Sound p l) : AgreeUpTo (n + 1) (objectRule p) (objectRule q) :=
  AgreeUpTo.after (consumes_lit '\x7b') fun _ =>
    (agree_listOf (agree_dataRule h hsound) (sound_dataRule hsound)).bind
      (sound_listOf (sound_dataRule hsound)).shrinks fun _ => AgreeUpTo.refl n _

theorem agree_arrayRule
    {n : ℕ} {p q : Scanner Char Value} (h : AgreeUpTo n p q) {l : Language Char}
    (hsound : Sound p l) : AgreeUpTo (n + 1) (arrayRule p) (arrayRule q) :=
  AgreeUpTo.after (consumes_lit '[') fun _ =>
    (agree_listOf h hsound).bind (sound_listOf hsound).shrinks fun _ => AgreeUpTo.refl n _

theorem valueRule_nil (depth : ℕ) : valueRule decimalText depth [] = none := by
  cases h : valueRule decimalText depth [] with
  | none => rfl
  | some x =>
      obtain ⟨w, hw, happend⟩ := sound_valueRule decimalText depth [] x.1 x.2 h
      obtain ⟨c, -, d, -, hhead⟩ := leads_value readerLexicon depth w hw x.2
      rw [happend] at hhead
      cases hhead

/-- A depth for each character of the input is enough. -/
theorem agree_valueRule (n : ℕ) {depth depth' : ℕ} (h : n ≤ depth) (h' : n ≤ depth') :
    AgreeUpTo n (valueRule decimalText depth) (valueRule decimalText depth') := by
  induction n generalizing depth depth' with
  | zero =>
      intro input hinput
      have hnil : input = [] := List.eq_nil_of_length_eq_zero (by omega)
      rw [hnil, valueRule_nil, valueRule_nil]
  | succ n ih =>
      obtain ⟨depth, rfl⟩ := Nat.exists_eq_add_of_lt (Nat.lt_of_lt_of_le (Nat.succ_pos n) h)
      obtain ⟨depth', rfl⟩ := Nat.exists_eq_add_of_lt (Nat.lt_of_lt_of_le (Nat.succ_pos n) h')
      have hdepth : n ≤ 0 + depth := by omega
      have hdepth' : n ≤ 0 + depth' := by omega
      have hagree := ih hdepth hdepth'
      have hsound := sound_valueRule decimalText (0 + depth)
      exact ((agree_objectRule hagree hsound).map _).orElse
        (((agree_arrayRule hagree hsound).map _).orElse (AgreeUpTo.refl _ _))

theorem Lexicon.listOf_mono (L : Lexicon) {l m : Language Char} (h : l ≤ m) :
    L.listOf l ≤ L.listOf m :=
  add_le_add (mul_le_mul' h (kstar_mono (mul_le_mul' le_rfl h))) le_rfl

theorem Lexicon.value_mono (L : Lexicon) : Monotone L.value := by
  apply monotone_nat_of_le_succ
  intro depth
  induction depth with
  | zero => exact fun w hw => absurd hw (Language.notMem_zero w)
  | succ depth ih =>
      exact add_le_add
        (mul_le_mul' le_rfl (mul_le_mul' (L.listOf_mono
          (mul_le_mul' le_rfl (mul_le_mul' le_rfl ih))) le_rfl))
        (add_le_add (mul_le_mul' le_rfl (mul_le_mul' (L.listOf_mono ih) le_rfl)) le_rfl)

theorem Lexicon.object_mono (L : Lexicon) {V W : Language Char} (h : V ≤ W) :
    L.object V ≤ L.object W :=
  mul_le_mul' le_rfl (mul_le_mul' (L.listOf_mono
    (mul_le_mul' le_rfl (mul_le_mul' le_rfl h))) le_rfl)

/-- The texts that are read begin with an object over the lexicon of the reader. -/
theorem read_isSome_iff {text : String} (htext : text ≠ "") :
    (∃ o, JsonReader.read decimalText text = .ok (some o)) ↔
      ∃ w ∈ readerLexicon.document, ∃ rest, w ++ rest = text.toList := by
  have hread : (∃ o, JsonReader.read decimalText text = .ok (some o)) ↔
      ∃ x, objectRule (valueRule decimalText text.length) text.toList = some x := by
    have hconfirm : confirm (decide (text ≠ "")) = .ok () := by
      simpa using htext
    unfold JsonReader.read
    rw [hconfirm]
    cases objectRule (valueRule decimalText text.length) text.toList with
    | none => simp [bind, Except.bind, pure, Except.pure]
    | some x => simp [bind, Except.bind, pure, Except.pure]
  rw [hread]
  constructor
  · rintro ⟨x, hx⟩
    obtain ⟨w, hw, happend⟩ :=
      sound_objectRule (sound_valueRule decimalText text.length) _ x.1 x.2 hx
    exact ⟨w, Language.mem_iSup.2 ⟨text.length, hw⟩, x.2, happend⟩
  · rintro ⟨w, hw, rest, happend⟩
    obtain ⟨n, hn⟩ := Language.mem_iSup.1 hw
    have hdeep : w ∈ readerLexicon.object (readerLexicon.value (max n text.length)) :=
      readerLexicon.object_mono (readerLexicon.value_mono (le_max_left _ _)) hn
    obtain ⟨o, ho⟩ := complete_objectRule (complete_valueRule decimalText _)
      (sound_valueRule decimalText _) (fun _ => True) w hdeep
    have hagree := agree_objectRule
      (agree_valueRule decimalText text.length (le_max_right n text.length) le_rfl)
      (sound_valueRule decimalText _)
    refine ⟨(o, rest), ?_⟩
    rw [← hagree text.toList (by rw [String.length_toList]; omega), ← happend]
    exact ho rest trivial

end

end ArtdaqDatabase
