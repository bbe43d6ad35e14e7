import ArtdaqDatabase.JsonPaths

/-!
# Removing what matches a pattern

`removeChild` erases the elements of an array that `matches` a pattern.  The match
looks only at what both sides have: an array is compared with itself, and a name that
the other object lacks is skipped.  So an element is erased unless it differs from the
pattern in such a part.
-/

namespace ArtdaqDatabase

open OrderedTable InPlaceUpdate NamedPaths

/-! ## The call -/

namespace JSONDocumentCall

/-- `findChildValue` for a value that is changed in its place. -/
def atPath {α : Type} (act : InPlace Failure Value α) : List String → InPlace Failure Value α
  | [] => act
  | token :: path =>
      within (ArtdaqDatabase.findChildValue [token]) (graftValue token) (atPath act path)

/-- The loop over the candidates: those that match, and those that stay. -/
def eraseMatching (deleteValue : Value) : List Value → List Value × List Value
  | [] => ([], [])
  | candidate :: rest =>
      let (deleted, kept) := eraseMatching deleteValue rest
      if matchesValue deleteValue candidate then (candidate :: deleted, kept)
      else (deleted, candidate :: kept)

/-- The candidates are the elements of an array. -/
def eraseCandidates (deleteValue : Value) : InPlace Failure Value (List Value)
  | .array candidates =>
      .ok (eraseMatching deleteValue candidates).1
        (.array (eraseMatching deleteValue candidates).2)
  | v => .error .badGet v

/-- `JSONDocument::removeChild`, which returns the removed elements under `0`. -/
def removeChild (delChild : Value) (path : String) : InPlace Failure Value Value := do
  lift (validate path "removeChild")
  let deleteValue ← lift (getPayloadValueForKey "null" delChild)
  let tokens ← lift (splitPathValidate path "findChildValue")
  let deleted ← atPath (eraseCandidates deleteValue) tokens
  return .object [("0", .array deleted)]

end JSONDocumentCall

theorem eraseMatching_eq (deleteValue : Value) (candidates : List Value) :
    JSONDocumentCall.eraseMatching deleteValue candidates =
      (candidates.filter (matchesValue deleteValue),
        candidates.filter fun candidate => !matchesValue deleteValue candidate) := by
  induction candidates with
  | nil => rfl
  | cons candidate rest ih =>
      rw [JSONDocumentCall.eraseMatching, ih]
      cases hmatch : matchesValue deleteValue candidate <;> simp [hmatch]

theorem atPath_run_iff
    {α : Type} {act : InPlace Failure Value α} {path : List String} {v v' : Value} {a : α} :
    JSONDocumentCall.atPath act path v = .ok a v' ↔
      ∃ found found', find path v = some found ∧ act found = .ok a found' ∧
        v' = put path found' v := by
  induction path generalizing v v' with
  | nil => simp [JSONDocumentCall.atPath, put]
  | cons token rest ih =>
      rw [JSONDocumentCall.atPath, within_run_iff]
      simp only [findChildValue_eq_ok_iff, ih]
      constructor
      · rintro ⟨child, _, hchild, ⟨found, found', hfound, hact, rfl⟩, rfl⟩
        rw [find_cons, Option.bind_eq_some_iff] at hchild
        obtain ⟨child', hchild', hsame⟩ := hchild
        rw [find_nil, Option.some.injEq] at hsame
        subst hsame
        exact ⟨found, found', Option.bind_eq_some_iff.2 ⟨_, hchild', hfound⟩, hact,
          (put_cons hchild' rest found').symm⟩
      · rintro ⟨found, found', hfound, hact, rfl⟩
        obtain ⟨child, hchild, hrest⟩ := Option.bind_eq_some_iff.1 hfound
        refine ⟨child, _, Option.bind_eq_some_iff.2 ⟨child, hchild, rfl⟩,
          ⟨found, found', hrest, hact, rfl⟩, put_cons hchild rest found'⟩

/-- What a removal from an array does. -/
theorem removeChild_run
    {delChild deleteValue document : Value} {path : String} {values : List Value}
    (hdelete : getPayloadValueForKey "null" delChild = .ok deleteValue)
    (hfound : Found path document (.array values)) :
    JSONDocumentCall.removeChild delChild path document =
      .ok (.object [("0", .array (values.filter (matchesValue deleteValue)))])
        (put (splitPath path)
          (.array (values.filter fun v => !matchesValue deleteValue v)) document) := by
  obtain ⟨hpath, hfind⟩ := found_iff.1 hfound
  have hne : path ≠ "" := by
    rintro rfl
    exact hpath (by decide)
  have hvalid : validate path "removeChild" = .ok () := by simp [validate, hne]
  have herase : JSONDocumentCall.atPath (JSONDocumentCall.eraseCandidates deleteValue)
      (splitPath path) document =
        .ok (values.filter (matchesValue deleteValue))
          (put (splitPath path)
            (.array (values.filter fun v => !matchesValue deleteValue v)) document) := by
    refine atPath_run_iff.2 ⟨.array values, _, hfind, ?_, rfl⟩
    rw [JSONDocumentCall.eraseCandidates, eraseMatching_eq]
  rw [JSONDocumentCall.removeChild, bind_run (lift_run hvalid _), bind_run (lift_run hdelete _),
    bind_run (lift_run (splitPathValidate_eq_ok_iff.2 ⟨hpath, rfl⟩) _), bind_run herase]
  rfl

/-! ## What the match sees -/

/-- The kinds of a value that `matches` tells apart. -/
inductive JsonKind where
  | object | array | string | decimal | integer | boolean
  deriving DecidableEq

def Value.kind : Value → JsonKind
  | .object _ => .object
  | .array _ => .array
  | .string _ => .string
  | .decimal _ => .decimal
  | .integer _ => .integer
  | .boolean _ => .boolean

/-- An empty array or object, or one that has such a part under names that it holds
once. -/
inductive HoldsEmpty : Value → Prop
  | noElements : HoldsEmpty (.array [])
  | noMembers : HoldsEmpty (.object [])
  | element {xs : List Value} {x : Value} (hmem : x ∈ xs) (hx : HoldsEmpty x) :
      HoldsEmpty (.array xs)
  | member {o : Object} {key : String} {v : Value} (honce : count key o = 1)
      (hv : lookup key o = some v) (hempty : HoldsEmpty v) : HoldsEmpty (.object o)

/-- A difference that the match sees: another kind, another scalar, an empty object, a
member of the larger object whose name the smaller one holds once with a value that
differs, or an array that is told from itself. -/
inductive Differs : Value → Value → Prop
  | kind {left right : Value} (hkind : left.kind ≠ right.kind) : Differs left right
  | string {s t : String} (hne : s ≠ t) : Differs (.string s) (.string t)
  | decimal {s t : String} (hne : s ≠ t) : Differs (.decimal s) (.decimal t)
  | integer {m n : ℤ} (hne : m ≠ n) : Differs (.integer m) (.integer n)
  | boolean {a b : Bool} (hne : a ≠ b) : Differs (.boolean a) (.boolean b)
  | noMembersLeft {right : Object} : Differs (.object []) (.object right)
  | noMembersRight {left : Object} : Differs (.object left) (.object [])
  | member {left right : Object} {key : String} {v w : Value} (hsize : right.length ≤ left.length)
      (hmem : (key, v) ∈ left) (honce : count key right = 1) (hw : lookup key right = some w)
      (hdiffers : Differs v w) : Differs (.object left) (.object right)
  | memberSwapped {left right : Object} {key : String} {v w : Value}
      (hsize : left.length < right.length) (hmem : (key, v) ∈ right) (honce : count key left = 1)
      (hw : lookup key left = some w) (hdiffers : Differs v w) :
      Differs (.object left) (.object right)
  | array {xs ys : List Value} (hempty : HoldsEmpty (.array xs)) : Differs (.array xs) (.array ys)

theorem matchesValue_array (xs ys : List Value) :
    matchesValue (.array xs) (.array ys) =
      (decide (xs ≠ []) && xs.all fun v => matchesValue v v) := by
  have hself : ∀ (v : Value) (h : v ∈ xs),
      (fun v : {v // v ∈ xs} => matchesValue v.1 v.1) ⟨v, h⟩ =
        (fun v => matchesValue v v) v := fun v h => rfl
  rw [matchesValue, List.all_subtype hself, List.unattach_attach]

/-- The comparison of a member with the smaller object. -/
def memberMatches (candidate : Object) (m : String × Value) : Bool :=
  if count m.1 candidate ≠ 1 then true
  else
    match lookup m.1 candidate with
    | some w => matchesValue m.2 w
    | none => true

theorem matchesValue_object (left right : Object) :
    matchesValue (.object left) (.object right) =
      if left = [] || right = [] then false
      else if right.length ≤ left.length then left.all (memberMatches right)
      else right.all (memberMatches left) := by
  rw [matchesValue, @List.all_subtype _ _ _ _ (memberMatches right), List.unattach_attach,
    @List.all_subtype _ _ _ _ (memberMatches left), List.unattach_attach]
  all_goals
    intro m _
    unfold memberMatches
    split
    · rfl
    · split <;> rename_i hlookup <;> simp only [hlookup]

theorem memberMatches_eq_false_iff {candidate : Object} {m : String × Value} :
    memberMatches candidate m = false ↔
      count m.1 candidate = 1 ∧
        ∃ w, lookup m.1 candidate = some w ∧ matchesValue m.2 w = false := by
  unfold memberMatches
  by_cases hcount : count m.1 candidate = 1
  · cases hlookup : lookup m.1 candidate <;> simp [hcount]
  · simp [hcount]

theorem sizeOf_array_lt {xs : List Value} {x : Value} (hx : x ∈ xs) :
    sizeOf x < sizeOf (Value.array xs) := by
  have hlt := List.sizeOf_lt_of_mem hx
  simp only [Value.array.sizeOf_spec]
  omega

theorem sizeOf_object_lt {o : Object} {key : String} {v : Value} (hv : lookup key o = some v) :
    sizeOf v < sizeOf (Value.object o) := by
  have hlt := sizeOf_lookup_lt hv
  simp only [Value.object.sizeOf_spec]
  omega

/-- A value is told from itself exactly if it holds an empty part. -/
theorem matchesValue_self_eq_false_iff (v : Value) :
    matchesValue v v = false ↔ HoldsEmpty v := by
  constructor
  · intro hfalse
    induction hn : sizeOf v using Nat.strong_induction_on generalizing v with
    | _ n ih =>
        subst hn
        cases v with
        | object o =>
            rw [matchesValue_object] at hfalse
            by_cases hempty : o = []
            · rw [hempty]
              exact HoldsEmpty.noMembers
            · simp only [hempty, decide_false, Bool.or_self, Bool.false_eq_true, if_false,
                le_refl, if_true, List.all_eq_false, Bool.not_eq_true] at hfalse
              obtain ⟨⟨key, v⟩, hmem, hmatch⟩ := hfalse
              obtain ⟨honce, w, hw, hfalse⟩ := memberMatches_eq_false_iff.1 hmatch
              rw [lookup_of_mem_of_count hmem honce, Option.some.injEq] at hw
              subst hw
              have hv : lookup key o = some v := lookup_of_mem_of_count hmem honce
              exact HoldsEmpty.member honce hv (ih _ (sizeOf_object_lt hv) v hfalse rfl)
        | array xs =>
            rw [matchesValue_array] at hfalse
            by_cases hempty : xs = []
            · rw [hempty]
              exact HoldsEmpty.noElements
            · simp only [ne_eq, hempty, not_false_eq_true, decide_true, Bool.true_and,
                List.all_eq_false, Bool.not_eq_true] at hfalse
              obtain ⟨x, hx, hfalse⟩ := hfalse
              exact HoldsEmpty.element hx (ih _ (sizeOf_array_lt hx) x hfalse rfl)
        | _ => simp [matchesValue] at hfalse
  · intro hempty
    induction hempty with
    | noElements => simp [matchesValue_array]
    | noMembers => simp [matchesValue_object]
    | element hmem hx ih =>
        rw [matchesValue_array, Bool.and_eq_false_iff]
        exact Or.inr (List.all_eq_false.2 ⟨_, hmem, by simpa using ih⟩)
    | @member o key v honce hv hempty ih =>
        have hmatch : memberMatches o (key, v) = false :=
          memberMatches_eq_false_iff.2 ⟨honce, v, hv, ih⟩
        have hne : o ≠ [] := List.ne_nil_of_mem (mem_of_lookup hv)
        rw [matchesValue_object]
        simp only [hne, decide_false, Bool.or_self, Bool.false_eq_true, if_false, le_refl, if_true]
        exact List.all_eq_false.2 ⟨(key, v), mem_of_lookup hv, by simpa using hmatch⟩

/-- Two objects that do not match differ at a member, or one of them is empty. -/
theorem differs_of_objects
    {left right : Object}
    (ih : ∀ v w, sizeOf v < max (sizeOf left) (sizeOf right) →
      sizeOf w < max (sizeOf left) (sizeOf right) → matchesValue v w = false → Differs v w)
    (hfalse : matchesValue (.object left) (.object right) = false) :
    Differs (.object left) (.object right) := by
  rw [matchesValue_object] at hfalse
  by_cases hleft : left = []
  · rw [hleft]
    exact Differs.noMembersLeft
  by_cases hright : right = []
  · rw [hright]
    exact Differs.noMembersRight
  simp only [hleft, hright, decide_false, Bool.or_self, Bool.false_eq_true, if_false] at hfalse
  split at hfalse
  · rename_i hsize
    obtain ⟨⟨key, v⟩, hmem, hmatch⟩ := List.all_eq_false.1 hfalse
    rw [Bool.not_eq_true, memberMatches_eq_false_iff] at hmatch
    obtain ⟨honce, w, hw, hfalse⟩ := hmatch
    have hv : sizeOf v < sizeOf left := sizeOf_member_lt hmem
    have hw' : sizeOf w < sizeOf right := sizeOf_lookup_lt hw
    exact Differs.member hsize hmem honce hw (ih v w (by omega) (by omega) hfalse)
  · rename_i hsize
    obtain ⟨⟨key, v⟩, hmem, hmatch⟩ := List.all_eq_false.1 hfalse
    rw [Bool.not_eq_true, memberMatches_eq_false_iff] at hmatch
    obtain ⟨honce, w, hw, hfalse⟩ := hmatch
    have hv : sizeOf v < sizeOf right := sizeOf_member_lt hmem
    have hw' : sizeOf w < sizeOf left := sizeOf_lookup_lt hw
    exact Differs.memberSwapped (Nat.lt_of_not_le hsize) hmem honce hw
      (ih v w (by omega) (by omega) hfalse)

/-- The match fails exactly at a difference that it sees. -/
theorem matchesValue_eq_false_iff (left right : Value) :
    matchesValue left right = false ↔ Differs left right := by
  constructor
  · intro hfalse
    induction hn : max (sizeOf left) (sizeOf right) using Nat.strong_induction_on
      generalizing left right with
    | _ n ih =>
        subst hn
        by_cases hkind : left.kind = right.kind
        · cases left with
          | object left =>
              cases right with
              | object right =>
                  refine differs_of_objects (fun v w hv hw hmatch => ih _ ?_ v w hmatch rfl) hfalse
                  simp only [Value.object.sizeOf_spec]
                  omega
              | _ => cases hkind
          | array xs =>
              cases right with
              | array ys =>
                  refine Differs.array ((matchesValue_self_eq_false_iff _).1 ?_)
                  rwa [matchesValue_array] at hfalse ⊢
              | _ => cases hkind
          | string s =>
              cases right with
              | string t => exact Differs.string (by simpa [matchesValue] using hfalse)
              | _ => cases hkind
          | decimal s =>
              cases right with
              | decimal t => exact Differs.decimal (by simpa [matchesValue] using hfalse)
              | _ => cases hkind
          | integer m =>
              cases right with
              | integer n => exact Differs.integer (by simpa [matchesValue] using hfalse)
              | _ => cases hkind
          | boolean a =>
              cases right with
              | boolean b => exact Differs.boolean (by simpa [matchesValue] using hfalse)
              | _ => cases hkind
        · exact Differs.kind hkind
  · intro hdiffers
    induction hdiffers with
    | kind hkind =>
        rename_i left right
        cases left <;> cases right <;> first
          | exact absurd rfl hkind
          | simp [matchesValue]
    | string hne => simpa [matchesValue] using hne
    | decimal hne => simpa [matchesValue] using hne
    | integer hne => simpa [matchesValue] using hne
    | boolean hne => simpa [matchesValue] using hne
    | noMembersLeft => simp [matchesValue_object]
    | noMembersRight => simp [matchesValue_object]
    | @member left right key v w hsize hmem honce hw hdiffers ih =>
        have hmatch : memberMatches right (key, v) = false :=
          memberMatches_eq_false_iff.2 ⟨honce, w, hw, ih⟩
        rw [matchesValue_object]
        split
        · rfl
        · exact List.all_eq_false.2 ⟨(key, v), hmem, by simpa using hmatch⟩
    | @memberSwapped left right key v w hsize hmem honce hw hdiffers ih =>
        have hmatch : memberMatches left (key, v) = false :=
          memberMatches_eq_false_iff.2 ⟨honce, w, hw, ih⟩
        rw [matchesValue_object, if_neg (Nat.not_le.2 hsize)]
        split
        · rfl
        · exact List.all_eq_false.2 ⟨(key, v), hmem, by simpa using hmatch⟩
    | @array xs ys hempty =>
        have hself := (matchesValue_self_eq_false_iff _).2 hempty
        rwa [matchesValue_array] at hself ⊢

/-! ## Agreement -/

mutual

/-- The value agrees with the pattern: equal scalars, arrays that agree element by element,
and an object with every member of the pattern. -/
def agrees : Value → Value → Bool
  | .object pattern, .object o => decide (pattern ≠ []) && agreesMembers pattern o
  | .array pattern, .array values => decide (pattern ≠ []) && agreesElements pattern values
  | .string s, .string t => s = t
  | .decimal s, .decimal t => s = t
  | .integer m, .integer n => m = n
  | .boolean a, .boolean b => a = b
  | _, _ => false

def agreesElements : List Value → List Value → Bool
  | [], [] => true
  | pattern :: rest, value :: values => agrees pattern value && agreesElements rest values
  | _, _ => false

def agreesMembers : List (String × Value) → Object → Bool
  | [], _ => true
  | (key, pattern) :: rest, o =>
      (match lookup key o with
        | some value => agrees pattern value
        | none => false) && agreesMembers rest o

end

/-- The elements that agree with the pattern go, in their order, and the others stay in
theirs. -/
def RemovesAgreeing (delChild pattern : Value) (path : String) (document : Value)
    (values : List Value) : Prop :=
  JSONDocumentCall.removeChild delChild path document =
    .ok (.object [("0", .array (values.filter (agrees pattern)))])
      (put (splitPath path) (.array (values.filter fun v => !agrees pattern v)) document)

/-- Where the law holds, the match and the agreement choose the same elements. -/
theorem RemovesAgreeing.matches_iff
    {delChild pattern document : Value} {path : String} {values : List Value}
    (hpattern : getPayloadValueForKey "null" delChild = .ok pattern)
    (hfound : Found path document (.array values))
    (hlaw : RemovesAgreeing delChild pattern path document values) {v : Value} (hv : v ∈ values) :
    matchesValue pattern v = true ↔ agrees pattern v = true := by
  rw [RemovesAgreeing, removeChild_run hpattern hfound] at hlaw
  simp only [EStateM.Result.ok.injEq, Value.object.injEq, List.cons.injEq, Prod.mk.injEq,
    Value.array.injEq, true_and, and_true] at hlaw
  have hmem : v ∈ values.filter (matchesValue pattern) ↔ v ∈ values.filter (agrees pattern) := by
    rw [hlaw.1]
  rw [List.mem_filter, List.mem_filter] at hmem
  simpa [hv] using hmem

/-- No array, and every name once. -/
inductive Plain : Value → Prop
  | object {o : Object} (hnodup : (o.map Prod.fst).Nodup) (hmembers : ∀ m ∈ o, Plain m.2) :
      Plain (.object o)
  | string (s : String) : Plain (.string s)
  | decimal (s : String) : Plain (.decimal s)
  | integer (n : ℤ) : Plain (.integer n)
  | boolean (b : Bool) : Plain (.boolean b)

/-- Every name once, also in the members. -/
inductive NamesOnce : Value → Prop
  | object {o : Object} (hnodup : (o.map Prod.fst).Nodup) (hmembers : ∀ m ∈ o, NamesOnce m.2) :
      NamesOnce (.object o)
  | other {v : Value} (hkind : v.kind ≠ .object) : NamesOnce v

theorem agreesMembers_iff {pattern : List (String × Value)} {o : Object} :
    agreesMembers pattern o = true ↔
      ∀ m ∈ pattern, ∃ v, lookup m.1 o = some v ∧ agrees m.2 v = true := by
  induction pattern with
  | nil => simp [agreesMembers]
  | cons first rest ih =>
      rw [agreesMembers, Bool.and_eq_true, ih, List.forall_mem_cons]
      cases lookup first.1 o <;> simp

/-- What agrees with a pattern without arrays does not differ from it. -/
theorem not_differs_of_agrees
    {pattern v : Value} (hpattern : Plain pattern) (hv : NamesOnce v)
    (hagrees : agrees pattern v = true) : ¬ Differs pattern v ∧ ¬ Differs v pattern := by
  induction hpattern generalizing v with
  | @object p hnodup hmembers ih =>
      cases v with
      | object o =>
          rw [agrees, Bool.and_eq_true, agreesMembers_iff, decide_eq_true_eq] at hagrees
          obtain ⟨hne, hall⟩ := hagrees
          have hnames : (o.map Prod.fst).Nodup ∧ ∀ m ∈ o, NamesOnce m.2 := by
            cases hv with
            | object hnodup' hmembers' => exact ⟨hnodup', hmembers'⟩
            | other hkind => exact absurd rfl hkind
          -- the values under a common name are the same for both sides
          have hcommon : ∀ key x y, (key, x) ∈ p → (key, y) ∈ o →
              ¬ Differs x y ∧ ¬ Differs y x := by
            intro key x y hx hy
            obtain ⟨w, hw, hagrees⟩ := hall (key, x) hx
            rw [lookup_of_mem hnames.1 hy, Option.some.injEq] at hw
            subst hw
            exact ih (key, x) hx (hnames.2 (key, y) hy) hagrees
          obtain ⟨m, hm⟩ := List.exists_mem_of_ne_nil p hne
          obtain ⟨w, hw, -⟩ := hall m hm
          have hone : o ≠ [] := List.ne_nil_of_mem (mem_of_lookup hw)
          constructor
          · intro hdiffers
            cases hdiffers with
            | kind hkind => exact hkind rfl
            | noMembersLeft => exact hne rfl
            | noMembersRight => exact hone rfl
            | member _ hmem _ hw hdiffers => exact (hcommon _ _ _ hmem (mem_of_lookup hw)).1 hdiffers
            | memberSwapped _ hmem _ hw hdiffers =>
                exact (hcommon _ _ _ (mem_of_lookup hw) hmem).2 hdiffers
          · intro hdiffers
            cases hdiffers with
            | kind hkind => exact hkind rfl
            | noMembersLeft => exact hone rfl
            | noMembersRight => exact hne rfl
            | member _ hmem _ hw hdiffers => exact (hcommon _ _ _ (mem_of_lookup hw) hmem).2 hdiffers
            | memberSwapped _ hmem _ hw hdiffers =>
                exact (hcommon _ _ _ hmem (mem_of_lookup hw)).1 hdiffers
      | _ => simp [agrees] at hagrees
  | string s =>
      cases v with
      | string t =>
          have hsame : s = t := by simpa [agrees] using hagrees
          subst hsame
          simp [← matchesValue_eq_false_iff, matchesValue]
      | _ => simp [agrees] at hagrees
  | decimal s =>
      cases v with
      | decimal t =>
          have hsame : s = t := by simpa [agrees] using hagrees
          subst hsame
          simp [← matchesValue_eq_false_iff, matchesValue]
      | _ => simp [agrees] at hagrees
  | integer m =>
      cases v with
      | integer n =>
          have hsame : m = n := by simpa [agrees] using hagrees
          subst hsame
          simp [← matchesValue_eq_false_iff, matchesValue]
      | _ => simp [agrees] at hagrees
  | boolean a =>
      cases v with
      | boolean b =>
          have hsame : a = b := by simpa [agrees] using hagrees
          subst hsame
          simp [← matchesValue_eq_false_iff, matchesValue]
      | _ => simp [agrees] at hagrees

/-- Such a pattern takes too much at most: the removal is exact if and only if each element
that does not agree differs in a part that both have. -/
theorem matchesValue_exact_of_plain
    {pattern : Value} {values : List Value} (hpattern : Plain pattern)
    (hvalues : ∀ v ∈ values, NamesOnce v) :
    (∀ v ∈ values, agrees pattern v = true ↔ ¬ Differs pattern v) ↔
      ∀ v ∈ values, agrees pattern v = true ∨ Differs pattern v := by
  refine forall₂_congr fun v hv => ⟨fun h => ?_, fun h => ⟨fun hagrees => ?_, fun hnot => ?_⟩⟩
  · by_cases hdiffers : Differs pattern v
    · exact Or.inr hdiffers
    · exact Or.inl (h.2 hdiffers)
  · exact (not_differs_of_agrees hpattern (hvalues v hv) hagrees).1
  · exact h.resolve_right hnot

/-! ## Servers and lists -/

def eastServer : Value :=
  .object [("name", .string "east"), ("port", .integer 1)]

def westServer : Value :=
  .object [("name", .string "west")]

/-- A document with two servers and two lists. -/
def serversDocument : Value :=
  .object
    [("servers", .array [eastServer, westServer]),
      ("lists", .array [.array [.integer 1], .array [.integer 2]])]

theorem found_servers : Found "servers" serversDocument (.array [eastServer, westServer]) := rfl

end ArtdaqDatabase
