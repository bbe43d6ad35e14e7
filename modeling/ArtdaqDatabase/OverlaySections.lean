import ArtdaqDatabase.JsonDocument

/-!
# Overlay sections

Constructing an overlay walks over the members of a JSON object: a missing
member is created with its default, its number of occurrences may be checked,
and its value is normalised in place by the overlay of that member.  All overlay
classes of a database record are built from this one walk.
-/

namespace ArtdaqDatabase

open OrderedTable

/-! ## The environment of a call -/

/-- The first character is a letter, as in the old timestamp format. -/
def StartsWithLetter (s : String) : Prop :=
  ∃ c rest, s.toList = c :: rest ∧ c.isAlpha = true

def ouidInvalid : String := "000000000000000000000000"

/-- What a call reads from outside: the clock, the old-format conversion of
`strptime`, which accepts texts that start with a weekday name and prints a date,
and the object ids that `generate_oid` returns at its three places of use: digits
of a random UUID, of which the thirteenth is its version. -/
structure Environment where
  timestamp : String
  oldTimestamp : String → Option String
  recordOid : String
  newOid : String
  providerOid : String
  timestamp_iso : timestamp.toList.head? = some '2'
  oldTimestamp_accepts : ∀ s t, oldTimestamp s = some t → StartsWithLetter s
  oldTimestamp_prints : ∀ s t, oldTimestamp s = some t → ¬ StartsWithLetter t
  oid_valid : ∀ oid ∈ [recordOid, newOid, providerOid], oid ≠ "" ∧ oid ≠ ouidInvalid

/-- A time at which the old timestamp format converts nothing. -/
def exampleEnvironment : Environment where
  timestamp := "2026-01-01T00:00:00.000+0000"
  oldTimestamp := fun _ => none
  recordOid := "aaaaaaaaaaaaaaaaaaaaaaaa"
  newOid := "bbbbbbbbbbbbbbbbbbbbbbbb"
  providerOid := "cccccccccccccccccccccccc"
  timestamp_iso := by decide
  oldTimestamp_accepts := by simp
  oldTimestamp_prints := by simp
  oid_valid := by decide

/-- `confirm_iso8601_timestamp`. -/
def confirmIso8601Timestamp (env : Environment) (s : String) : Except Failure String :=
  match s.toList with
  | [] => .error .confirmFailed
  | '2' :: _ => .ok s
  | _ =>
      match env.oldTimestamp s with
      | some t => .ok t
      | none =>
          .error (.invalidArgument
            "Failed calling confirm_iso8601_timestamp(): format mismatch")

/-! ## Overlays -/

/-- An overlay normalises the value it is attached to, or refuses it. -/
abbrev Overlay := Environment → Value → Except Failure Value

/-- A member of an overlaid object. -/
structure Section where
  key : String
  default : Option (Environment → Value)
  unique : Bool
  normalize : Overlay

def Section.fill (s : Section) (env : Environment) (o : Object) : Object :=
  match s.default with
  | some d => if count s.key o = 0 then set s.key (d env) o else o
  | none => o

def Section.apply (s : Section) (env : Environment) (o : Object) : Except Failure Object := do
  let filled := s.fill env o
  confirm (!s.unique || count s.key filled = 1)
  let v ← valueAt s.key filled
  let w ← s.normalize env v
  .ok (set s.key w filled)

def applySections (sections : List Section) (env : Environment) (o : Object) :
    Except Failure Object :=
  sections.foldlM (fun o s => s.apply env o) o

def overlayObject (sections : List Section) : Overlay := fun env v =>
  match v with
  | .object o => do
      let o' ← applySections sections env o
      .ok (.object o')
  | _ => .error .confirmFailed

/-- `ovlKeyValue`: any value. -/
def ovlKeyValue : Overlay := fun _ v => .ok v

/-- `ovlStringKeyValue`: a text, never empty. -/
def ovlStringKeyValue : Overlay := fun _ v =>
  match v with
  | .string s => .ok (.string (if s = "" then "notprovided" else s))
  | _ => .error .confirmFailed

/-- `ovlTimeStamp`. -/
def ovlTimeStamp : Overlay := fun env v => do
  let s ← v.getString
  let t ← confirmIso8601Timestamp env s
  .ok (.string t)

/-- `ovlFixedList`: every element of an array is overlaid. -/
def ovlFixedList (element : Overlay) : Overlay := fun env v => do
  let entries ← v.getArray
  let entries' ← entries.mapM (element env)
  .ok (.array entries')

/-! ## Repeated construction -/

/-- The overlay takes the value as it is, at every time. -/
def Overlay.Accepts (f : Overlay) (v : Value) : Prop :=
  ∀ env, f env v = .ok v

/-- Once the overlay takes the value it always does, as it is. -/
def Overlay.Normal (f : Overlay) (v : Value) : Prop :=
  ∀ env w, f env v = .ok w → w = v ∧ f.Accepts v

def Overlay.Normalizes (f : Overlay) : Prop :=
  ∀ env v w, f env v = .ok w → f.Normal w

theorem ovlKeyValue_accepts (v : Value) : ovlKeyValue.Accepts v :=
  fun _ => rfl

theorem ovlKeyValue_normalizes : Overlay.Normalizes ovlKeyValue := by
  intro env v w hw env' w' hw'
  exact ⟨(Except.ok.inj hw').symm, ovlKeyValue_accepts w⟩

theorem ovlStringKeyValue_accepts {s : String} (hs : s ≠ "") :
    ovlStringKeyValue.Accepts (.string s) := by
  intro env
  simp [ovlStringKeyValue, hs]

theorem ovlStringKeyValue_eq_ok {env : Environment} {v w : Value} :
    ovlStringKeyValue env v = .ok w ↔
      ∃ s, v = .string s ∧ w = .string (if s = "" then "notprovided" else s) := by
  cases v <;> simp [ovlStringKeyValue, eq_comm]

theorem ovlStringKeyValue_normalizes : Overlay.Normalizes ovlStringKeyValue := by
  intro env v w hw env' w' hw'
  have hw := ovlStringKeyValue_eq_ok.1 hw
  cases hw with
  | intro s hs =>
      have haccepts : ovlStringKeyValue.Accepts w := by
        rw [hs.2]
        apply ovlStringKeyValue_accepts
        split
        · decide
        · assumption
      rw [haccepts env', Except.ok.injEq] at hw'
      exact ⟨hw'.symm, haccepts⟩

theorem confirmIso8601Timestamp_of_two {s : String} (hs : s.toList.head? = some '2')
    (env : Environment) :
    confirmIso8601Timestamp env s = .ok s := by
  unfold confirmIso8601Timestamp
  cases hlist : s.toList with
  | nil => simp [hlist] at hs
  | cons c rest =>
      rw [hlist, List.head?_cons, Option.some.injEq] at hs
      subst hs
      rfl

/-- What passes either starts with the century or was printed by the conversion. -/
theorem confirmIso8601Timestamp_eq_ok
    {env : Environment} {s t : String} (ht : confirmIso8601Timestamp env s = .ok t) :
    (t = s ∧ t.toList.head? = some '2') ∨ (StartsWithLetter s ∧ ¬ StartsWithLetter t) := by
  unfold confirmIso8601Timestamp at ht
  split at ht
  · simp at ht
  · rename_i rest hs
    rw [Except.ok.injEq] at ht
    subst ht
    exact Or.inl ⟨rfl, by rw [hs]; rfl⟩
  · split at ht
    · rename_i u hu
      rw [Except.ok.injEq] at ht
      subst ht
      exact Or.inr ⟨env.oldTimestamp_accepts s u hu, env.oldTimestamp_prints s u hu⟩
    · simp at ht

theorem ovlTimeStamp_accepts {s : String} (hs : s.toList.head? = some '2') :
    ovlTimeStamp.Accepts (.string s) := by
  intro env
  simp [ovlTimeStamp, Value.getString, bind, Except.bind,
    confirmIso8601Timestamp_of_two hs env]

theorem ovlTimeStamp_eq_ok {env : Environment} {v w : Value} :
    ovlTimeStamp env v = .ok w ↔
      ∃ s t, v = .string s ∧ confirmIso8601Timestamp env s = .ok t ∧ w = .string t := by
  simp only [ovlTimeStamp, bind_eq_ok, getString_eq_ok, Except.ok.injEq]
  constructor
  · rintro ⟨s, hs, t, ht, hw⟩
    exact ⟨s, t, hs, ht, hw.symm⟩
  · rintro ⟨s, t, hs, ht, hw⟩
    exact ⟨s, hs, t, ht, hw.symm⟩

theorem ovlTimeStamp_normalizes : Overlay.Normalizes ovlTimeStamp := by
  intro env v w hw env' w' hw'
  obtain ⟨s, t, -, ht, rfl⟩ := ovlTimeStamp_eq_ok.1 hw
  obtain ⟨s', t', hs', ht', rfl⟩ := ovlTimeStamp_eq_ok.1 hw'
  rw [Value.string.injEq] at hs'
  subst hs'
  rcases confirmIso8601Timestamp_eq_ok ht' with ⟨rfl, htwo⟩ | ⟨hletter, -⟩
  · exact ⟨rfl, ovlTimeStamp_accepts htwo⟩
  · rcases confirmIso8601Timestamp_eq_ok ht with ⟨-, htwo⟩ | ⟨-, hprinted⟩
    · rw [confirmIso8601Timestamp_of_two htwo, Except.ok.injEq] at ht'
      exact ⟨by rw [ht'], ovlTimeStamp_accepts htwo⟩
    · exact absurd hletter hprinted

/-! ## Lists -/

theorem mapM_accepts
    {f : Overlay} {xs : List Value} (hxs : ∀ x ∈ xs, f.Accepts x) (env : Environment) :
    xs.mapM (f env) = .ok xs := by
  induction xs with
  | nil => rfl
  | cons x xs ih =>
      have hx := hxs x (by simp) env
      have hrest := ih fun y hy => hxs y (List.mem_cons_of_mem _ hy)
      simp [List.mapM_cons, hx, hrest, bind, Except.bind, pure, Except.pure]

theorem accepts_of_mapM
    {f : Overlay} {xs : List Value} (hxs : ∀ env, xs.mapM (f env) = .ok xs) :
    ∀ x ∈ xs, f.Accepts x := by
  induction xs with
  | nil => simp
  | cons x xs ih =>
      have hcons : ∀ env, f env x = .ok x ∧ xs.mapM (f env) = .ok xs := by
        intro env
        have henv := hxs env
        simp only [List.mapM_cons, bind_eq_ok, pure, Except.pure, Except.ok.injEq,
          List.cons.injEq] at henv
        obtain ⟨y, hy, ys, hys, rfl, rfl⟩ := henv
        exact ⟨hy, hys⟩
      intro y hy
      rcases List.mem_cons.1 hy with rfl | hy
      · exact fun env => (hcons env).1
      · exact ih (fun env => (hcons env).2) y hy

theorem ovlFixedList_accepts_iff {element : Overlay} {xs : List Value} :
    (ovlFixedList element).Accepts (.array xs) ↔ ∀ x ∈ xs, element.Accepts x := by
  have hrun : ∀ env, ovlFixedList element env (.array xs) = .ok (.array xs) ↔
      xs.mapM (element env) = .ok xs := by
    intro env
    simp [ovlFixedList, bind_eq_ok, Value.getArray]
  constructor
  · intro haccepts
    exact accepts_of_mapM fun env => (hrun env).1 (haccepts env)
  · intro hxs env
    exact (hrun env).2 (mapM_accepts hxs env)

theorem mapM_normal
    {f : Overlay} {env : Environment} {xs ys : List Value}
    (hxs : ∀ x ∈ xs, f.Normal x) (hys : xs.mapM (f env) = .ok ys) :
    ys = xs ∧ ∀ x ∈ xs, f.Accepts x := by
  induction xs generalizing ys with
  | nil => exact ⟨(Except.ok.inj hys).symm, by simp⟩
  | cons x xs ih =>
      simp only [List.mapM_cons, bind_eq_ok, pure, Except.pure, Except.ok.injEq] at hys
      obtain ⟨y, hy, ys', hys', rfl⟩ := hys
      have hhead := hxs x (by simp) env y hy
      have hrest := ih (fun z hz => hxs z (List.mem_cons_of_mem _ hz)) hys'
      constructor
      · rw [hhead.1, hrest.1]
      · intro z hz
        rcases List.mem_cons.1 hz with rfl | hz
        · exact hhead.2
        · exact hrest.2 z hz

theorem ovlFixedList_normal
    {element : Overlay} {xs : List Value} (hxs : ∀ x ∈ xs, element.Normal x) :
    (ovlFixedList element).Normal (.array xs) := by
  intro env w hw
  simp only [ovlFixedList, bind_eq_ok, getArray_eq_ok, Value.array.injEq,
    Except.ok.injEq] at hw
  obtain ⟨xs', rfl, ys, hys, rfl⟩ := hw
  have hnormal := mapM_normal hxs hys
  exact ⟨by rw [hnormal.1], ovlFixedList_accepts_iff.2 hnormal.2⟩

theorem mapM_normalizes
    {f : Overlay} (hf : f.Normalizes) {env : Environment} {xs ys : List Value}
    (hys : xs.mapM (f env) = .ok ys) :
    ∀ y ∈ ys, f.Normal y := by
  induction xs generalizing ys with
  | nil =>
      simp only [List.mapM_nil, pure, Except.pure, Except.ok.injEq] at hys
      simp [← hys]
  | cons x xs ih =>
      simp only [List.mapM_cons, bind_eq_ok, pure, Except.pure, Except.ok.injEq] at hys
      obtain ⟨y, hy, ys', hys', rfl⟩ := hys
      intro z hz
      rcases List.mem_cons.1 hz with rfl | hz
      · exact hf env x z hy
      · exact ih hys' z hz

theorem ovlFixedList_normalizes {element : Overlay} (helement : element.Normalizes) :
    Overlay.Normalizes (ovlFixedList element) := by
  intro env v w hw
  simp only [ovlFixedList, bind_eq_ok, getArray_eq_ok, Except.ok.injEq] at hw
  obtain ⟨xs, rfl, ys, hys, rfl⟩ := hw
  exact ovlFixedList_normal (mapM_normalizes helement hys)

/-! ## The members of an overlaid object -/

/-- The value that a section starts from. -/
def Section.input (s : Section) (env : Environment) (o : Object) : Option Value :=
  lookup s.key o <|> s.default.map fun d => d env

theorem Section.lookup_fill (s : Section) (env : Environment) (o : Object) :
    lookup s.key (s.fill env o) = s.input env o := by
  unfold Section.fill Section.input
  cases s.default with
  | none => simp
  | some d =>
      cases hlookup : lookup s.key o with
      | none => simp [count_eq_zero_iff.2 hlookup]
      | some v =>
          have := count_pos_of_lookup hlookup
          simp [hlookup, Nat.pos_iff_ne_zero.1 this]

theorem Section.fill_of_ne
    {s : Section} {k : String} (hk : k ≠ s.key) (env : Environment) (o : Object) :
    lookup k (s.fill env o) = lookup k o ∧ count k (s.fill env o) = count k o := by
  unfold Section.fill
  split
  · split
    · exact ⟨lookup_set_of_ne hk _ _, count_set_of_ne hk _ _⟩
    · exact ⟨rfl, rfl⟩
  · exact ⟨rfl, rfl⟩

theorem Section.fill_of_lookup
    {s : Section} {o : Object} {w : Value} (hlookup : lookup s.key o = some w)
    (env : Environment) :
    s.fill env o = o := by
  unfold Section.fill
  split
  · rw [if_neg]
    exact Nat.pos_iff_ne_zero.1 (count_pos_of_lookup hlookup)
  · rfl

/-- What a section leaves at its key. -/
structure Section.Result (s : Section) (env : Environment) (o o' : Object) (w : Value) :
    Prop where
  normalized : ∃ v, s.input env o = some v ∧ s.normalize env v = .ok w
  lookup_eq : lookup s.key o' = some w
  once : s.unique = true → count s.key o' = 1

/-- A section reads its own member and writes nothing else. -/
theorem Section.apply_spec
    {s : Section} {env : Environment} {o o' : Object} (happly : s.apply env o = .ok o') :
    (∃ w, s.Result env o o' w) ∧
      ∀ k, k ≠ s.key → lookup k o' = lookup k o ∧ count k o' = count k o := by
  simp only [Section.apply, bind_eq_ok, valueAt_eq_ok, Except.ok.injEq] at happly
  obtain ⟨u, hconfirm, v, hv, w, hw, rfl⟩ := happly
  rw [confirm_eq_ok] at hconfirm
  have hfilled := hv
  rw [s.lookup_fill] at hv
  constructor
  · refine ⟨w, ⟨v, hv, hw⟩, lookup_set_self _ _ _, fun hunique => ?_⟩
    rw [count_set_self_of_lookup hfilled]
    simpa [hunique] using hconfirm
  · intro k hk
    have hfill := Section.fill_of_ne hk env o
    rw [lookup_set_of_ne hk, count_set_of_ne hk]
    exact hfill

theorem applySections_cons
    {s : Section} {sections : List Section} {env : Environment} {o o' : Object} :
    applySections (s :: sections) env o = .ok o' ↔
      ∃ o₁, s.apply env o = .ok o₁ ∧ applySections sections env o₁ = .ok o' := by
  simp only [applySections, List.foldlM_cons, bind_eq_ok]

theorem applySections_of_notMem
    {sections : List Section} {env : Environment} {o o' : Object} {k : String}
    (hk : k ∉ sections.map Section.key) (happly : applySections sections env o = .ok o') :
    lookup k o' = lookup k o ∧ count k o' = count k o := by
  induction sections generalizing o with
  | nil =>
      simp only [applySections, List.foldlM_nil, pure, Except.pure, Except.ok.injEq] at happly
      rw [happly]
      exact ⟨rfl, rfl⟩
  | cons s sections ih =>
      obtain ⟨o₁, hs, hrest⟩ := applySections_cons.1 happly
      simp only [List.map_cons, List.mem_cons, not_or] at hk
      have hframe := (Section.apply_spec hs).2 k hk.1
      have htail := ih hk.2 hrest
      rw [htail.1, htail.2]
      exact hframe

/-- Each member of the result comes from the section of its key. -/
theorem applySections_result
    {sections : List Section} (hnodup : (sections.map Section.key).Nodup)
    {env : Environment} {o o' : Object} (happly : applySections sections env o = .ok o')
    {s : Section} (hs : s ∈ sections) :
    ∃ w, s.Result env o o' w := by
  induction sections generalizing o with
  | nil => simp at hs
  | cons s₀ sections ih =>
      rw [List.map_cons, List.nodup_cons] at hnodup
      obtain ⟨o₁, hs₀, hrest⟩ := applySections_cons.1 happly
      obtain ⟨⟨w, hw⟩, hframe⟩ := Section.apply_spec hs₀
      rcases List.mem_cons.1 hs with rfl | hmem
      · have hkept := applySections_of_notMem hnodup.1 hrest
        exact ⟨w, hw.normalized, by rw [hkept.1, hw.lookup_eq],
          fun hunique => by rw [hkept.2, hw.once hunique]⟩
      · obtain ⟨w', hw'⟩ := ih hnodup.2 hrest hmem
        have hne : s.key ≠ s₀.key := by
          intro heq
          exact hnodup.1 (heq ▸ List.mem_map_of_mem hmem)
        obtain ⟨v, hv, hnormalize⟩ := hw'.normalized
        refine ⟨w', ⟨v, ?_, hnormalize⟩, hw'.lookup_eq, hw'.once⟩
        rw [← hv, Section.input, Section.input, (hframe _ hne).1]

/-- The member is there, and the section takes it as it is. -/
def Section.Holds (s : Section) (o : Object) : Prop :=
  (∃ w, lookup s.key o = some w ∧ s.normalize.Accepts w) ∧
    (s.unique = true → count s.key o = 1)

theorem Section.apply_of_holds {s : Section} {o : Object} (hholds : s.Holds o)
    (env : Environment) :
    s.apply env o = .ok o := by
  obtain ⟨⟨w, hlookup, haccepts⟩, honce⟩ := hholds
  have hconfirm : (!s.unique || decide (count s.key o = 1)) = true := by
    cases hunique : s.unique with
    | false => rfl
    | true => simp [honce hunique]
  simp only [Section.apply, Section.fill_of_lookup hlookup env, bind_eq_ok, valueAt_eq_ok,
    Except.ok.injEq, confirm_eq_ok]
  exact ⟨(), hconfirm, w, hlookup, w, haccepts env, set_of_lookup hlookup⟩

theorem applySections_of_holds
    {sections : List Section} {o : Object} (hholds : ∀ s ∈ sections, s.Holds o)
    (env : Environment) :
    applySections sections env o = .ok o := by
  induction sections with
  | nil => rfl
  | cons s sections ih =>
      have hs := Section.apply_of_holds (hholds s (by simp)) env
      exact applySections_cons.2
        ⟨o, hs, ih fun s' hs' => hholds s' (List.mem_cons_of_mem _ hs')⟩

/-- Sections whose members are normal leave the object alone, or refuse it. -/
theorem applySections_of_normal
    {sections : List Section} {env : Environment} {o o' : Object}
    (hnormal : ∀ s ∈ sections, ∃ w, lookup s.key o = some w ∧ s.normalize.Normal w)
    (happly : applySections sections env o = .ok o') :
    o' = o ∧ ∀ s ∈ sections, s.Holds o := by
  induction sections with
  | nil => exact ⟨(Except.ok.inj happly).symm, by simp⟩
  | cons s sections ih =>
      obtain ⟨o₁, hs, hrest⟩ := applySections_cons.1 happly
      obtain ⟨w, hlookup, hw⟩ := hnormal s (by simp)
      simp only [Section.apply, Section.fill_of_lookup hlookup env, bind_eq_ok,
        valueAt_eq_ok, Except.ok.injEq, confirm_eq_ok] at hs
      obtain ⟨u, hconfirm, v, hv, w', hw', rfl⟩ := hs
      rw [hlookup, Option.some.injEq] at hv
      subst hv
      have haccepts := hw env w' hw'
      rw [haccepts.1, set_of_lookup hlookup] at hrest
      have htail := ih (fun s' hs' => hnormal s' (List.mem_cons_of_mem _ hs')) hrest
      refine ⟨htail.1, fun s' hs' => ?_⟩
      rcases List.mem_cons.1 hs' with rfl | hs'
      · exact ⟨⟨w, hlookup, haccepts.2⟩, fun hunique => by simpa [hunique] using hconfirm⟩
      · exact htail.2 s' hs'

theorem overlayObject_eq_ok {sections : List Section} {env : Environment} {v w : Value} :
    overlayObject sections env v = .ok w ↔
      ∃ o o', v = .object o ∧ applySections sections env o = .ok o' ∧ w = .object o' := by
  cases v with
  | object o => simp [overlayObject, bind_eq_ok, eq_comm (a := w)]
  | array _ => simp [overlayObject]
  | string _ => simp [overlayObject]
  | decimal _ => simp [overlayObject]
  | integer _ => simp [overlayObject]
  | boolean _ => simp [overlayObject]

section Objects

variable {sections : List Section} {o : Object}

theorem holds_of_result
    {s : Section} (hresult : ∀ env, ∃ w, s.Result env o o w) :
    s.Holds o := by
  obtain ⟨w, hw⟩ := hresult exampleEnvironment
  refine ⟨⟨w, hw.lookup_eq, fun env => ?_⟩, hw.once⟩
  obtain ⟨w', hw'⟩ := hresult env
  obtain ⟨v, hv, hnormalize⟩ := hw'.normalized
  have hinput : v = w := by
    rw [Section.input, hw.lookup_eq] at hv
    simpa using hv.symm
  have hsame := hw'.lookup_eq
  rw [hw.lookup_eq, Option.some.injEq] at hsame
  rw [← hinput, hnormalize, ← hsame, ← hinput]

theorem applySections_accepts_iff (hnodup : (sections.map Section.key).Nodup) :
    (∀ env, applySections sections env o = .ok o) ↔ ∀ s ∈ sections, s.Holds o := by
  constructor
  · intro haccepts s hs
    exact holds_of_result fun env => applySections_result hnodup (haccepts env) hs
  · exact applySections_of_holds

theorem overlayObject_accepts_iff (hnodup : (sections.map Section.key).Nodup) :
    (overlayObject sections).Accepts (.object o) ↔ ∀ s ∈ sections, s.Holds o := by
  rw [← applySections_accepts_iff hnodup]
  apply forall_congr'
  intro env
  simp [overlayObject, bind_eq_ok]

theorem Section.Holds.set_self
    {s : Section} (hholds : s.Holds o) {v : Value} (hv : s.normalize.Accepts v) :
    s.Holds (set s.key v o) := by
  obtain ⟨⟨w, hlookup, -⟩, honce⟩ := hholds
  refine ⟨⟨v, lookup_set_self _ _ _, hv⟩, fun hunique => ?_⟩
  rw [count_set_self_of_lookup hlookup]
  exact honce hunique

theorem Section.Holds.set_of_ne
    {s : Section} (hholds : s.Holds o) {k : String} (hk : s.key ≠ k) (v : Value) :
    s.Holds (set k v o) := by
  unfold Section.Holds
  rw [lookup_set_of_ne hk, count_set_of_ne hk]
  exact hholds

/-- A member may be replaced by a value that its section takes as it is. -/
theorem holds_set
    (hnodup : (sections.map Section.key).Nodup) (hholds : ∀ s ∈ sections, s.Holds o)
    {s : Section} (hs : s ∈ sections) {v : Value} (hv : s.normalize.Accepts v) :
    ∀ s' ∈ sections, s'.Holds (set s.key v o) := by
  intro s' hs'
  by_cases hkey : s'.key = s.key
  · have hsame : s' = s := List.inj_on_of_nodup_map hnodup hs' hs hkey
    subst hsame
    exact (hholds s' hs').set_self hv
  · exact (hholds s' hs').set_of_ne hkey v

theorem normal_set
    (hnodup : (sections.map Section.key).Nodup)
    (hnormal : ∀ s ∈ sections, ∃ w, lookup s.key o = some w ∧ s.normalize.Normal w)
    {s : Section} (hs : s ∈ sections) {v : Value} (hv : s.normalize.Normal v) :
    ∀ s' ∈ sections, ∃ w, lookup s'.key (set s.key v o) = some w ∧ s'.normalize.Normal w := by
  intro s' hs'
  by_cases hkey : s'.key = s.key
  · have hsame : s' = s := List.inj_on_of_nodup_map hnodup hs' hs hkey
    subst hsame
    exact ⟨v, lookup_set_self _ _ _, hv⟩
  · rw [lookup_set_of_ne hkey]
    exact hnormal s' hs'

theorem Overlay.Accepts.normal {f : Overlay} {v : Value} (hv : f.Accepts v) : f.Normal v := by
  intro env w hw
  rw [hv env, Except.ok.injEq] at hw
  exact ⟨hw.symm, hv⟩

theorem overlayObject_normal
    (hnormal : ∀ s ∈ sections, ∃ w, lookup s.key o = some w ∧ s.normalize.Normal w) :
    (overlayObject sections).Normal (.object o) := by
  intro env w hw
  obtain ⟨p, o', hp, happly, rfl⟩ := overlayObject_eq_ok.1 hw
  rw [Value.object.injEq] at hp
  subst hp
  have hresult := applySections_of_normal hnormal happly
  refine ⟨by rw [hresult.1], fun env' => ?_⟩
  exact overlayObject_eq_ok.2 ⟨o, o, rfl, applySections_of_holds hresult.2 env', rfl⟩

theorem applySections_normalizes
    (hnodup : (sections.map Section.key).Nodup)
    (hnormalizes : ∀ s ∈ sections, s.normalize.Normalizes)
    {env : Environment} {o' : Object} (happly : applySections sections env o = .ok o') :
    ∀ s ∈ sections, ∃ w, lookup s.key o' = some w ∧ s.normalize.Normal w := by
  intro s hs
  obtain ⟨w, hw⟩ := applySections_result hnodup happly hs
  obtain ⟨v, -, hnormalize⟩ := hw.normalized
  exact ⟨w, hw.lookup_eq, hnormalizes s hs env v w hnormalize⟩

theorem overlayObject_normalizes
    (hnodup : (sections.map Section.key).Nodup)
    (hnormalizes : ∀ s ∈ sections, s.normalize.Normalizes) :
    Overlay.Normalizes (overlayObject sections) := by
  intro env v w hw
  obtain ⟨o, o', rfl, happly, rfl⟩ := overlayObject_eq_ok.1 hw
  exact overlayObject_normal (applySections_normalizes hnodup hnormalizes happly)

end Objects

end ArtdaqDatabase
