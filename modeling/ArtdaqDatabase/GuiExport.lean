import ArtdaqDatabase.EditCycle
import ArtdaqDatabase.FhiclRoundTrip

/-!
# The export after a cycle through the editor

The writer fills a section from data and metadata.  The data come back from the
editor, but the metadata have lost the protections, and those of a sequence list
its plain elements only, so what the export prints changes with the kind of value.
-/

namespace ArtdaqDatabase

open OrderedTable

/-! ## The same parameters -/

mutual

/-- The same value, comments and annotations aside. -/
def FclValue.sameAs : FclValue → FclValue → Prop
  | .table atoms _, .table atoms' _ => atomsSame atoms atoms'
  | .sequence values _, .sequence values' _ => elementsSame values values'
  | .string text _, .string text' _ => text = text'
  | .decimal text _, .decimal text' _ => text = text'
  | .integer number _, .integer number' _ => number = number'
  | .boolean flag _, .boolean flag' _ => flag = flag'
  | _, _ => False

def elementsSame : List FclValue → List FclValue → Prop
  | [], [] => True
  | v :: values, w :: values' => v.sameAs w ∧ elementsSame values values'
  | _, _ => False

/-- The names, with the protections behind them, and the values are the same. -/
def atomsSame : List Atom → List Atom → Prop
  | [], [] => True
  | (k, v) :: atoms, (l, w) :: atoms' => k.key = l.key ∧ v.sameAs w ∧ atomsSame atoms atoms'
  | _, _ => False

end

def FhiclTables.SameAs (tables tables' : FhiclTables) : Prop :=
  atomsSame tables.prolog tables'.prolog ∧ atomsSame tables.main tables'.main

/-! ## Which trees keep their export -/

mutual

/-- Behind the name of a parameter: no scalar of an unknown kind, no container in a
sequence, and a table of parameters that are all kept. -/
def contentsKept (opts : ExtraOpts) : ExtendedValue → Bool
  | .scalar tag _ _ => tag ≠ .unknown
  | .sequence values _ => values.all isScalar
  | .table members _ => membersKept opts members

/-- An include directive is kept with its text, any other parameter if it is not
protected. -/
def membersKept (opts : ExtraOpts) : List (String × ExtendedValue) → Bool
  | [] => true
  | (key, v) :: members =>
      (!opts.selects v ||
        if isIncludeKey key then isScalar v
        else v.info.protection = .none && contentsKept opts v) && membersKept opts members

end

/-! ## Filling without a missing key -/

section

variable {α : Type}

def MissesKey (result : Except Failure α) : Prop :=
  ∃ key, result = .error (.outOfRange key)

theorem fillAll_eq_ok_iff {results : List (Except Failure α)} {pushed : List α} :
    fillAll results = .ok pushed ↔ results = pushed.map .ok := by
  induction results generalizing pushed with
  | nil => cases pushed <;> simp [fillAll]
  | cons result results ih =>
      simp only [fillAll, bind_eq_ok, pure, Except.pure, Except.ok.injEq]
      constructor
      · rintro ⟨a, rfl, more, hmore, rfl⟩
        rw [ih.1 hmore]
        rfl
      · intro h
        cases pushed with
        | nil => cases h
        | cons a more =>
            rw [List.map_cons, List.cons.injEq] at h
            exact ⟨a, h.1, more, ih.2 h.2, rfl⟩

/-- Where no key is missing, filling swallows nothing. -/
theorem fillWith_eq_fillAll
    {results : List (Except Failure α)} (h : ∀ result ∈ results, ¬MissesKey result)
    {pushed : List α} : fillWith results = .ok pushed ↔ fillAll results = .ok pushed := by
  induction results generalizing pushed with
  | nil => rfl
  | cons result results ih =>
      have htail := @ih fun r hr => h r (List.mem_cons_of_mem _ hr)
      cases result with
      | error failure =>
          have hkey := h _ List.mem_cons_self
          cases failure with
          | outOfRange key => exact absurd ⟨key, rfl⟩ hkey
          | _ => simp [fillWith, fillAll, bind, Except.bind]
      | ok a =>
          rw [fillWith_ok, fillAll, map_eq_ok]
          simp only [bind_eq_ok, pure, Except.pure, Except.ok.injEq]
          constructor
          · rintro ⟨more, hmore, rfl⟩
            exact ⟨a, rfl, more, htail.1 hmore, rfl⟩
          · rintro ⟨_, rfl, more, hmore, rfl⟩
            exact ⟨more, htail.2 hmore, rfl⟩

theorem fillWith_not_missesKey (results : List (Except Failure α)) :
    ¬MissesKey (fillWith results) := by
  induction results with
  | nil =>
      rintro ⟨key, h⟩
      cases h
  | cons result results ih =>
      rintro ⟨key, h⟩
      cases result with
      | ok a =>
          rw [fillWith_ok] at h
          cases hfill : fillWith results with
          | ok pushed =>
              rw [hfill] at h
              cases h
          | error failure =>
              rw [hfill] at h
              cases h
              exact ih ⟨key, hfill⟩
      | error failure => cases failure <;> cases h

theorem fillWith_ne_nil
    {result : Except Failure α} (h : ¬MissesKey result) (rest : List (Except Failure α)) :
    fillWith (result :: rest) ≠ .ok [] := by
  cases result with
  | ok a =>
      rw [fillWith_ok]
      cases fillWith rest <;> simp [Functor.map, Except.map]
  | error failure =>
      cases failure with
      | outOfRange key => exact absurd ⟨key, rfl⟩ h
      | _ => simp [fillWith]

theorem map_not_missesKey {β : Type} {f : α → β} {result : Except Failure α}
    (h : ¬MissesKey result) : ¬MissesKey (f <$> result) := by
  rintro ⟨key, hkey⟩
  cases result with
  | ok a => cases hkey
  | error failure =>
      cases hkey
      exact h ⟨key, rfl⟩

end

/-! ## Atoms of a node -/

section

variable {o : Object} {key : String} {protection : Protection}

/-- A sequence without children is filled from an empty table of them. -/
theorem json2fcldbAtom_sequence_ready
    (hkey : isIncludeKey key = false) (h : IsNode o "sequence" protection)
    (hready : ChildrenReady o) (values : List Value) :
    ∃ comment annotation, json2fcldbAtom key (.object o) (.array values) =
      (fun pushed => (⟨keyText key protection, comment⟩, .sequence pushed annotation)) <$>
        fillWith (elementResults (childrenIn o) 0 values) := by
  cases hlookup : lookup "children" o with
  | some w =>
      obtain ⟨children, rfl⟩ := hready w hlookup
      have hchildren : childrenIn o = children := by
        rw [childrenIn, hlookup]
      rw [hchildren]
      exact json2fcldbAtom_sequence hkey h hlookup values
  | none =>
      have hchildren : childrenIn o = [] := by
        rw [childrenIn, hlookup]
      have hempty : fillWith (elementResults [] 0 values) = .ok [] := by
        cases values <;> rfl
      obtain ⟨comment, annotation, hfinish⟩ := finishAtom_node h key true fun _ => by decide
      refine ⟨comment, annotation, ?_⟩
      have htype := stringAt_eq_ok.2 h.type
      have hmissing : objectAt "children" o = .error (.outOfRange "children") := by
        simp [objectAt, valueAt, hlookup, bind, Except.bind]
      rw [hchildren, hempty]
      simp only [json2fcldbAtom, atomFrom, Value.getObject, bind, Except.bind, htype, hkey,
        hmissing]
      exact hfinish (.sequence [] none)

theorem includeAtom_not_missesKey (data : Value) : ¬MissesKey (includeAtom data) := by
  rintro ⟨name, h⟩
  cases data <;> cases h

/-- The atom of a node is never missing a key. -/
theorem json2fcldbAtom_not_missesKey
    {opts : ExtraOpts} {v : ExtendedValue} (h : IsNode o (typeNameOf v) protection)
    (hready : ∀ values info, v = .sequence values info → ChildrenReady o)
    (hchildren : ∀ members info, v = .table members info →
      ∃ children, lookup "children" o = some (.object children)) :
    ¬MissesKey (json2fcldbAtom key (.object o) (dataOf opts v)) := by
  cases hkey : isIncludeKey key with
  | true =>
      rw [json2fcldbAtom_include h hkey]
      exact includeAtom_not_missesKey _
  | false =>
      cases v with
      | scalar tag rawValue info =>
          rintro ⟨name, hname⟩
          by_cases htag : tag = .unknown
          · subst htag
            have ⟨message, hmessage⟩ := json2fcldbAtom_unknown hkey h rawValue
            have hdata : dataOf opts (.scalar .unknown rawValue info) = .string rawValue := rfl
            rw [hdata, hmessage] at hname
            cases hname
          · have ⟨comment, annotation, hatom⟩ := json2fcldbAtom_scalar hkey h htag
            rw [dataOf, hatom] at hname
            cases hname
      | sequence values info =>
          have ⟨comment, annotation, hatom⟩ :=
            json2fcldbAtom_sequence_ready hkey h (hready values info rfl) (elementsData opts values)
          rw [dataOf, hatom]
          exact map_not_missesKey (fillWith_not_missesKey _)
      | table members info =>
          obtain ⟨children, hlookup⟩ := hchildren members info rfl
          have ⟨comment, hatom⟩ := json2fcldbAtom_table hkey h hlookup (membersData opts members)
          rw [dataOf, hatom]
          exact map_not_missesKey (fillWith_not_missesKey _)

end

/-! ## The metadata that come back -/

/-- The plain elements of a sequence, under their positions. -/
def scalarEntries (idx : ℕ) : List ExtendedValue → List Object → Object
  | v :: values, node :: nodes =>
      (if isScalar v then [(toString idx, .object node)] else []) ++
        scalarEntries (idx + 1) values nodes
  | _, _ => []

theorem addElement_children
    {v : ExtendedValue} {idx : ℕ} {node metadata added : Object} (hready : ChildrenReady metadata)
    (h : addElement v (toString idx) node metadata = .ok added) :
    ChildrenReady added ∧ childrenIn added =
      childrenIn metadata ++ if isScalar v then [(toString idx, .object node)] else [] := by
  unfold addElement at h
  split at h
  · rename_i hscalar
    rw [makeChildOfChildren_eq hready] at h
    cases h
    refine ⟨ChildrenReady.set _ _, ?_⟩
    rw [childrenIn, lookup_set_self, if_pos hscalar]
  · rename_i hscalar
    cases h
    have hne : toString idx ≠ "children" := toString_nat_ne_children idx
    refine ⟨hready.append hne _, ?_⟩
    have hlookup : lookup "children" (metadata ++ [(toString idx, Value.object node)]) =
        lookup "children" metadata := by
      rw [lookup_append]
      simp only [lookup, if_neg hne, Option.or_none]
    rw [childrenIn, hlookup, if_neg hscalar, List.append_nil]
    rfl

theorem addElements_children
    (values : List ExtendedValue) (idx : ℕ) (nodes : List Object) {metadata added : Object}
    (hready : ChildrenReady metadata) (h : addElements idx values nodes metadata = .ok added) :
    ChildrenReady added ∧
      childrenIn added = childrenIn metadata ++ scalarEntries idx values nodes := by
  induction values generalizing idx nodes metadata with
  | nil =>
      cases h
      exact ⟨hready, (List.append_nil _).symm⟩
  | cons v values ih =>
      cases nodes with
      | nil =>
          cases h
          exact ⟨hready, (List.append_nil _).symm⟩
      | cons node nodes =>
          rw [addElements, bind_eq_ok] at h
          obtain ⟨first, hfirst, hrest⟩ := h
          have ⟨hready', hchildren⟩ := addElement_children hready hfirst
          have ⟨hready'', hchildren'⟩ := ih (idx + 1) nodes hready' hrest
          refine ⟨hready'', ?_⟩
          rw [hchildren', hchildren, scalarEntries, List.append_assoc]

theorem isNode_sequenceStart (comment : String) :
    IsNode (sequenceStart (toJsonString comment)) "sequence" .none := by
  constructor
  · rfl
  · exact ⟨comment, rfl⟩
  · exact fun _ => ⟨"", rfl⟩
  · rfl
  · exact Nat.zero_le 1

theorem isNode_tableNode (comment : String) (children : Object) :
    IsNode [("type", .string "table"), ("comment", .string (toJsonString comment)),
      ("children", .object children)] "table" .none := by
  constructor
  · rfl
  · exact ⟨comment, rfl⟩
  · exact fun h => absurd rfl h
  · rfl
  · exact Nat.zero_le 1

section

variable {opts : ExtraOpts} {node : Object}

/-- The metadata of a sequence list its plain elements. -/
theorem regained_sequence
    {values : List ExtendedValue} {info : ValueInfo}
    (h : Regained opts node (.sequence values info)) :
    ∃ nodes, ElementsRegained opts nodes values ∧ IsNode node "sequence" .none ∧
      ChildrenReady node ∧ childrenIn node = scalarEntries 0 values nodes := by
  obtain ⟨comment, nodes, hnodes, hadded⟩ := h
  have hready : ChildrenReady (sequenceStart (toJsonString comment)) := by
    intro w hw
    cases hw
  have ⟨added, hadded', hnode, _⟩ := addElements_ok values 0 nodes hready
  rw [hadded] at hadded'
  cases hadded'
  have ⟨hready', hchildren⟩ := addElements_children values 0 nodes hready hadded
  exact ⟨nodes, hnodes, hnode _ (isNode_sequenceStart comment), hready', hchildren⟩

/-- A node that comes back is one without protection. -/
theorem regained_isNode {v : ExtendedValue} (h : Regained opts node v) :
    IsNode node (typeNameOf v) .none := by
  cases v with
  | scalar tag rawValue info => exact h
  | sequence values info =>
      obtain ⟨nodes, -, hnode, -⟩ := regained_sequence h
      exact hnode
  | table members info =>
      obtain ⟨comment, nodes, -, rfl⟩ := h
      exact isNode_tableNode comment nodes

end

/-! ## Elements -/

section

variable {comments : Comments} {opts : ExtraOpts}

/-- A plain element has its own metadata, any other has none. -/
def ScalarsFound (children : Object) (idx : ℕ) : List ExtendedValue → List Object → Prop
  | v :: values, node :: nodes =>
      lookup (toString idx) children = (if isScalar v then some (.object node) else none) ∧
        ScalarsFound children (idx + 1) values nodes
  | _, _ => True

theorem lookup_scalarEntries_of_lt
    (values : List ExtendedValue) (nodes : List Object) {idx i : ℕ} (h : i < idx) :
    lookup (toString i) (scalarEntries idx values nodes) = none := by
  induction values generalizing idx nodes with
  | nil => rfl
  | cons v values ih =>
      cases nodes with
      | nil => rfl
      | cons node nodes =>
          have hne : toString idx ≠ toString i := fun heq => by
            have := toString_nat_injective heq
            omega
          rw [scalarEntries, lookup_append, ih nodes (by omega), Option.or_none]
          split
          · rw [lookup, if_neg hne, lookup_nil]
          · rfl

/-- What stands in front are elements that came before. -/
theorem scalarsFound_scalarEntries
    (values : List ExtendedValue) (nodes : List Object) (idx : ℕ) {front : Object}
    (hfront : ∀ i, idx ≤ i → lookup (toString i) front = none) :
    ScalarsFound (front ++ scalarEntries idx values nodes) idx values nodes := by
  induction values generalizing idx nodes front with
  | nil => trivial
  | cons v values ih =>
      cases nodes with
      | nil => trivial
      | cons node nodes =>
          rw [scalarEntries, ScalarsFound]
          constructor
          · rw [lookup_append, hfront idx le_rfl, Option.none_or, lookup_append,
              lookup_scalarEntries_of_lt values nodes (Nat.lt_succ_self idx)]
            split <;> simp [lookup]
          · rw [← List.append_assoc]
            apply ih
            intro i hi
            have hne : toString idx ≠ toString i := fun heq => by
              have := toString_nat_injective heq
              omega
            rw [lookup_append, hfront i (by omega), Option.none_or]
            split
            · rw [lookup, if_neg hne, lookup_nil]
            · rfl

/-- The value of a container in a sequence is that of its atom. -/
theorem joinedElement_container
    (idx : ℕ) {v : ExtendedValue} (hv : isScalar v = false) :
    joinedElement comments opts idx v = Prod.snd <$> joined comments opts (toString idx) v := by
  cases v with
  | scalar tag rawValue info => cases hv
  | sequence values info => rfl
  | table members info => rfl

theorem joined_not_missesKey (key : String) (v : ExtendedValue) :
    ¬MissesKey (joined comments opts key v) := by
  apply json2fcldbAtom_not_missesKey (isNode_metadataOf comments opts key v)
  · rintro values info rfl
    exact ChildrenReady.set _ _
  · rintro members info rfl
    exact ⟨_, lookup_set_self "children" _ _⟩

theorem exists_scalar {v : ExtendedValue} (h : isScalar v = true) :
    ∃ tag rawValue info, v = .scalar tag rawValue info := by
  cases v with
  | scalar tag rawValue info => exact ⟨tag, rawValue, info, rfl⟩
  | _ => cases h

theorem valueAt_of_none {key : String} {o : Object} (h : lookup key o = none) :
    valueAt key o = .error (.outOfRange key) := by
  rw [valueAt, h]

/-- The elements are the same exactly when all of them are plain. -/
theorem elements_same_iff
    (values : List ExtendedValue) (idx : ℕ) (nodes : List Object) {children children' : Object}
    (hfound : ∀ entry ∈ elementsMetadata comments opts idx values,
      lookup entry.1 children = some entry.2)
    (hnodes : ElementsRegained opts nodes values)
    (hfound' : ScalarsFound children' idx values nodes) :
    (∃ pushed pushed', fillWith (elementResults children idx (elementsData opts values)) =
        .ok pushed ∧
      fillWith (elementResults children' idx (elementsData opts values)) = .ok pushed' ∧
      elementsSame pushed pushed') ↔ values.all isScalar = true := by
  induction values generalizing idx nodes with
  | nil => exact ⟨fun _ => rfl, fun _ => ⟨[], [], rfl, rfl, trivial⟩⟩
  | cons v values ih =>
      obtain ⟨node, rest, rfl, hnode, hrest⟩ := hnodes
      have hhead := valueAt_eq_ok.2 (hfound _ List.mem_cons_self)
      have htail := ih (idx + 1) rest
        (fun entry hentry => hfound entry (List.mem_cons_of_mem _ hentry)) hrest hfound'.2
      have hhead' := hfound'.1
      rw [elementsData, elementResults, elementResults, hhead, List.all_cons]
      by_cases hscalar : isScalar v
      · obtain ⟨tag, rawValue, info, rfl⟩ := exists_scalar hscalar
        have hvalue := json2fcldbValue_scalar
          (isNode_metadataOf comments opts (toString idx) (.scalar tag rawValue info))
        have hvalue' := json2fcldbValue_scalar hnode
        have hlookup : valueAt (toString idx) children' = .ok (.object node) :=
          valueAt_eq_ok.2 hhead'
        rw [hlookup, dataOf]
        simp only [bind, Except.bind, hvalue, hvalue', fillWith_ok, map_eq_ok, isScalar,
          Bool.true_and]
        rw [← htail]
        constructor
        · rintro ⟨_, _, ⟨more, hmore, rfl⟩, ⟨more', hmore', rfl⟩, hsame⟩
          exact ⟨more, more', hmore, hmore', hsame.2⟩
        · rintro ⟨more, more', hmore, hmore', hsame⟩
          exact ⟨_, _, ⟨more, hmore, rfl⟩, ⟨more', hmore', rfl⟩, rfl, hsame⟩
      · -- the first container ends the filling after the cycle, and only then
        rw [if_neg hscalar] at hhead'
        have hmissing := valueAt_of_none hhead'
        rw [Bool.not_eq_true] at hscalar
        have hstop : ∀ rest, fillWith ((do
            let metadata ← valueAt (toString idx) children'
            json2fcldbValue (dataOf opts v) metadata
              (json2fcldbAtom (toString idx) metadata (dataOf opts v))) :: rest) = .ok [] := by
          rw [hmissing]
          intro rest
          rfl
        have helement : ¬MissesKey (joinedElement comments opts idx v) := by
          rw [joinedElement_container idx hscalar]
          exact map_not_missesKey (joined_not_missesKey _ v)
        rw [hstop, hscalar, Bool.false_and]
        constructor
        · rintro ⟨pushed, pushed', hpushed, hpushed', hsame⟩
          cases hpushed'
          cases pushed with
          | nil => exact absurd hpushed (fillWith_ne_nil helement _)
          | cons a more => exact hsame.elim
        · exact fun h => absurd h Bool.false_ne_true

/-! ## Members -/

def SameAtom (atom atom' : Atom) : Prop :=
  atom.1.key = atom'.1.key ∧ atom.2.sameAs atom'.2

theorem keyText_eq_iff (key : String) (protection : Protection) :
    keyText key protection = key ↔ protection = .none := by
  unfold keyText
  split
  · rename_i hnone
    exact ⟨fun _ => hnone, fun _ => rfl⟩
  · rename_i hprotection
    refine ⟨fun h => ?_, fun h => absurd h hprotection⟩
    have hlength := congrArg String.length h
    simp only [String.length_append] at hlength
    have hspace : (" " : String).length = 1 := rfl
    omega

theorem keys_membersRegained
    (members : List (String × ExtendedValue)) {nodes : Object}
    (h : MembersRegained opts nodes members) :
    (nodes.map Prod.fst).Sublist (members.map Prod.fst) := by
  induction members generalizing nodes with
  | nil =>
      cases h
      exact List.Sublist.slnil
  | cons member members ih =>
      obtain ⟨key, v⟩ := member
      by_cases hselects : opts.selects v
      · obtain ⟨node, rest, rfl, -, hrest⟩ := (membersRegained_selected hselects).1 h
        exact (ih hrest).cons_cons key
      · exact (ih ((membersRegained_left_out hselects).1 h)).cons key

/-- The kept part of a parameter behind the question whether it is a directive. -/
def memberKept (opts : ExtraOpts) (key : String) (v : ExtendedValue) : Bool :=
  if isIncludeKey key then isScalar v else v.info.protection = .none && contentsKept opts v

theorem include_same_iff
    {key : String} (hkey : isIncludeKey key = true) {v : ExtendedValue} {node : Object}
    (hnode : Regained opts node v) :
    (∃ atom atom', joined comments opts key v = .ok atom ∧
        json2fcldbAtom key (.object node) (dataOf opts v) = .ok atom' ∧ SameAtom atom atom') ↔
      isScalar v = true := by
  rw [joined, json2fcldbAtom_include (isNode_metadataOf comments opts key v) hkey,
    json2fcldbAtom_include (regained_isNode hnode) hkey]
  cases v with
  | scalar tag rawValue info => exact ⟨fun _ => rfl, fun _ => ⟨_, _, rfl, rfl, rfl, rfl⟩⟩
  | _ =>
      constructor
      · rintro ⟨atom, atom', h, -⟩
        cases h
      · exact fun h => absurd h Bool.false_ne_true

/-- A container is the same when its name and what it is filled with are. -/
theorem container_same_iff
    {α : Type} {key key' : FclKey} {value value' : List α → FclValue}
    {filled filled' : Except Failure (List α)} {same : List α → List α → Prop}
    (hsame : ∀ pushed pushed', (value pushed).sameAs (value' pushed') ↔ same pushed pushed') :
    (∃ atom atom', (fun pushed => (key, value pushed)) <$> filled = .ok atom ∧
        (fun pushed => (key', value' pushed)) <$> filled' = .ok atom' ∧ SameAtom atom atom') ↔
      key.key = key'.key ∧ ∃ pushed pushed', filled = .ok pushed ∧ filled' = .ok pushed' ∧
        same pushed pushed' := by
  simp only [map_eq_ok]
  constructor
  · rintro ⟨_, _, ⟨pushed, hpushed, rfl⟩, ⟨pushed', hpushed', rfl⟩, hkey, hvalue⟩
    exact ⟨hkey, pushed, pushed', hpushed, hpushed', (hsame _ _).1 hvalue⟩
  · rintro ⟨hkey, pushed, pushed', hpushed, hpushed', hvalue⟩
    exact ⟨_, _, ⟨pushed, hpushed, rfl⟩, ⟨pushed', hpushed', rfl⟩, hkey, (hsame _ _).2 hvalue⟩

theorem regained_not_missesKey
    (key : String) {v : ExtendedValue} {node : Object} (h : Regained opts node v) :
    ¬MissesKey (json2fcldbAtom key (.object node) (dataOf opts v)) := by
  apply json2fcldbAtom_not_missesKey (regained_isNode h)
  · rintro values info rfl
    obtain ⟨nodes, -, -, hready, -⟩ := regained_sequence h
    exact hready
  · rintro members info rfl
    obtain ⟨comment, nodes, -, rfl⟩ := h
    exact ⟨nodes, rfl⟩

theorem memberResults_regained
    {children : Object} (members : List (String × ExtendedValue)) {nodes : Object}
    (h : MembersRegained opts nodes members)
    (hfound : ∀ entry ∈ nodes, lookup entry.1 children = some entry.2) :
    ∀ result ∈ memberResults children (membersData opts members), ¬MissesKey result := by
  induction members generalizing nodes with
  | nil => exact fun result hresult => absurd hresult List.not_mem_nil
  | cons member members ih =>
      obtain ⟨key, v⟩ := member
      by_cases hselects : opts.selects v
      · obtain ⟨node, rest, rfl, hnode, hrest⟩ := (membersRegained_selected hselects).1 h
        have hhead := valueAt_eq_ok.2 (hfound _ List.mem_cons_self)
        rw [membersData, if_pos hselects, memberResults, hhead]
        intro result hresult
        rcases List.mem_cons.1 hresult with rfl | hresult
        · exact regained_not_missesKey key hnode
        · exact ih hrest (fun entry hentry => hfound entry (List.mem_cons_of_mem _ hentry)) result
            hresult
      · rw [membersData, if_neg hselects]
        exact ih ((membersRegained_left_out hselects).1 h) hfound

theorem memberResults_not_missesKey
    {children : Object} (members : List (String × ExtendedValue))
    (hfound : ∀ entry ∈ membersMetadata comments opts members,
      lookup entry.1 children = some entry.2) :
    ∀ result ∈ memberResults children (membersData opts members), ¬MissesKey result := by
  rw [memberResults_of_children members hfound]
  intro result hresult
  obtain ⟨member, -, rfl⟩ := List.mem_map.1 hresult
  exact joined_not_missesKey member.1 member.2

theorem fillAll_cons_same_iff
    (result result' : Except Failure Atom) (results results' : List (Except Failure Atom)) :
    (∃ pushed pushed', fillAll (result :: results) = .ok pushed ∧
        fillAll (result' :: results') = .ok pushed' ∧ atomsSame pushed pushed') ↔
      (∃ atom atom', result = .ok atom ∧ result' = .ok atom' ∧ SameAtom atom atom') ∧
        ∃ pushed pushed', fillAll results = .ok pushed ∧ fillAll results' = .ok pushed' ∧
          atomsSame pushed pushed' := by
  simp only [fillAll, bind_eq_ok, pure, Except.pure, Except.ok.injEq]
  constructor
  · rintro ⟨_, _, ⟨atom, hatom, more, hmore, rfl⟩, ⟨atom', hatom', more', hmore', rfl⟩, hsame⟩
    obtain ⟨hkey, hvalue, hrest⟩ := hsame
    exact ⟨⟨atom, atom', hatom, hatom', hkey, hvalue⟩, more, more', hmore, hmore', hrest⟩
  · rintro ⟨⟨atom, atom', hatom, hatom', hkey, hvalue⟩, more, more', hmore, hmore', hrest⟩
    exact ⟨_, _, ⟨atom, hatom, more, hmore, rfl⟩, ⟨atom', hatom', more', hmore', rfl⟩, hkey,
      hvalue, hrest⟩

theorem scalar_same_iff
    {key : String} (hkey : isIncludeKey key = false) {tag : ScalarTag} {rawValue : String}
    {info : ValueInfo} {node : Object} (hnode : Regained opts node (.scalar tag rawValue info)) :
    (∃ atom atom', joined comments opts key (.scalar tag rawValue info) = .ok atom ∧
        json2fcldbAtom key (.object node) (dataOf opts (.scalar tag rawValue info)) = .ok atom' ∧
        SameAtom atom atom') ↔
      info.protection = .none ∧ contentsKept opts (.scalar tag rawValue info) = true := by
  by_cases htag : tag = .unknown
  · subst htag
    have ⟨message, hmessage⟩ := joined_unknown comments opts hkey rawValue info
    simp [hmessage, contentsKept]
  · have ⟨comment, annotation, hatom⟩ := joined_scalar comments opts hkey htag rawValue info
    have ⟨comment', annotation', hatom'⟩ := json2fcldbAtom_scalar hkey hnode htag
    rw [hatom, dataOf, hatom']
    constructor
    · rintro ⟨_, _, hok, hok', hsame, -⟩
      cases hok
      cases hok'
      exact ⟨(keyText_eq_iff key _).1 hsame, by simp [contentsKept, htag]⟩
    · rintro ⟨hprotection, -⟩
      exact ⟨_, _, rfl, rfl, (keyText_eq_iff key _).2 hprotection, rfl⟩

mutual

/-- A parameter is exported alike exactly when it is kept. -/
theorem atom_same_iff
    (key : String) (v : ExtendedValue) (hv : v.Legal) {node : Object}
    (hnode : Regained opts node v) :
    (∃ atom atom', joined comments opts key v = .ok atom ∧
        json2fcldbAtom key (.object node) (dataOf opts v) = .ok atom' ∧ SameAtom atom atom') ↔
      memberKept opts key v = true := by
  unfold memberKept
  cases hkey : isIncludeKey key with
  | true => exact include_same_iff hkey hnode
  | false =>
      simp only [Bool.false_eq_true, if_false, Bool.and_eq_true, decide_eq_true_iff]
      cases v with
      | scalar tag rawValue info => exact scalar_same_iff hkey hnode
      | sequence values info =>
          obtain ⟨nodes, hnodes, hisNode, hready, hchildren⟩ := regained_sequence hnode
          have ⟨comment, annotation, hatom⟩ := json2fcldbAtom_sequence hkey
            (isNode_metadataOf comments opts key (.sequence values info))
            (lookup_set_self "children" _ _) (elementsData opts values)
          have ⟨comment', annotation', hatom'⟩ :=
            json2fcldbAtom_sequence_ready hkey hisNode hready (elementsData opts values)
          have helements := elements_same_iff values 0 nodes
            (fun entry hentry => lookup_of_mem (nodup_elementsMetadata comments opts 0 values) hentry)
            hnodes (scalarsFound_scalarEntries values nodes 0 fun i _ => lookup_nil _)
          have hsame : ∀ pushed pushed', (FclValue.sequence pushed annotation).sameAs
              (.sequence pushed' annotation') ↔ elementsSame pushed pushed' := fun _ _ => Iff.rfl
          rw [joined, dataOf, hatom, hatom', hchildren]
          exact (container_same_iff hsame).trans
            (and_congr (keyText_eq_iff key info.protection) helements)
      | table members info =>
          obtain ⟨comment, nodes, hnodes, rfl⟩ := hnode
          have hkeys := hv.1.sublist (keys_membersMetadata comments opts members)
          have hkeys' := hv.1.sublist (keys_membersRegained members hnodes)
          have hfound : ∀ entry ∈ membersMetadata comments opts members,
              lookup entry.1 (membersMetadata comments opts members) = some entry.2 :=
            fun entry hentry => lookup_of_mem hkeys hentry
          have hfound' : ∀ entry ∈ nodes, lookup entry.1 nodes = some entry.2 :=
            fun entry hentry => lookup_of_mem hkeys' hentry
          have hmembers := members_same_iff members hv.2 hfound hnodes hfound'
          have ⟨text, hatom⟩ := json2fcldbAtom_table hkey
            (isNode_metadataOf comments opts key (.table members info))
            (lookup_set_self "children" _ _) (membersData opts members)
          have ⟨text', hatom'⟩ := json2fcldbAtom_table hkey (isNode_tableNode comment nodes) rfl
            (membersData opts members)
          have hsame : ∀ pushed pushed', (FclValue.table pushed none).sameAs
              (.table pushed' none) ↔ atomsSame pushed pushed' := fun _ _ => Iff.rfl
          simp only [← fillWith_eq_fillAll (memberResults_not_missesKey members hfound),
            ← fillWith_eq_fillAll (memberResults_regained members hnodes hfound')] at hmembers
          rw [joined, dataOf, hatom, hatom']
          exact (container_same_iff hsame).trans
            (and_congr (keyText_eq_iff key info.protection) hmembers)

theorem members_same_iff
    (members : List (String × ExtendedValue)) (hmembers : membersLegal members)
    {children children' nodes : Object}
    (hfound : ∀ entry ∈ membersMetadata comments opts members,
      lookup entry.1 children = some entry.2)
    (hnodes : MembersRegained opts nodes members)
    (hfound' : ∀ entry ∈ nodes, lookup entry.1 children' = some entry.2) :
    (∃ pushed pushed', fillAll (memberResults children (membersData opts members)) = .ok pushed ∧
        fillAll (memberResults children' (membersData opts members)) = .ok pushed' ∧
        atomsSame pushed pushed') ↔
      membersKept opts members = true := by
  cases members with
  | nil => exact ⟨fun _ => rfl, fun _ => ⟨[], [], rfl, rfl, trivial⟩⟩
  | cons member members =>
      obtain ⟨key, v⟩ := member
      obtain ⟨-, hv, hrest⟩ := hmembers
      by_cases hselects : opts.selects v
      · rw [membersMetadata, if_pos hselects] at hfound
        obtain ⟨node, rest, rfl, hnode, hrestNodes⟩ := (membersRegained_selected hselects).1 hnodes
        have hhead := valueAt_eq_ok.2 (hfound _ List.mem_cons_self)
        have hhead' := valueAt_eq_ok.2 (hfound' _ List.mem_cons_self)
        have hatom := atom_same_iff key v hv hnode
        have htail := members_same_iff members hrest
          (fun entry hentry => hfound entry (List.mem_cons_of_mem _ hentry)) hrestNodes
          (fun entry hentry => hfound' entry (List.mem_cons_of_mem _ hentry))
        rw [membersData, if_pos hselects, memberResults, memberResults, hhead, hhead', membersKept,
          hselects, Bool.not_true, Bool.false_or, Bool.and_eq_true, ← htail]
        exact (fillAll_cons_same_iff _ _ _ _).trans (and_congr hatom Iff.rfl)
      · rw [membersMetadata, if_neg hselects] at hfound
        have htail := members_same_iff members hrest hfound
          ((membersRegained_left_out hselects).1 hnodes) hfound'
        rw [Bool.not_eq_true] at hselects
        rw [membersData, if_neg (Bool.eq_false_iff.1 hselects), membersKept, hselects,
          Bool.not_false, Bool.true_or, Bool.true_and]
        exact htail

end

end

/-! ## Whole documents -/

section

variable {decimalText : List Char → String} {dbJson : String} {dbAst data metadata : Object}

theorem jsonToFhicl_eq
    (hread : JsonReader.read decimalText dbJson = .ok (some dbAst))
    (hdata : documentData dbAst = .ok data) (hmetadata : documentMetadata dbAst = .ok metadata) :
    jsonToFhicl decimalText dbJson = (do
      let prolog ← writeSection "prolog" data metadata
      let main ← writeSection "main" data metadata
      return some ⟨prolog, main⟩) := by
  obtain ⟨document, hdocument, hdata⟩ := documentData_eq_ok.1 hdata
  obtain ⟨document', hdocument', hmetadata⟩ := documentMetadata_eq_ok.1 hmetadata
  rw [hdocument] at hdocument'
  cases hdocument'
  have hconfirm : confirm (dbJson ≠ "") = .ok () := by simp [text_ne_of_read hread]
  have hne : confirm (document ≠ []) = .ok () := by
    have : document ≠ [] := by
      rintro rfl
      cases hdata
    simp [this]
  rw [jsonToFhicl, hconfirm]
  simp only [bind, Except.bind, hread, hdocument, Option.getD_some, Value.getObject, writeData, hne,
    objectAt_eq_ok.2 hdata, objectAt_eq_ok.2 hmetadata]
  cases writeSection "prolog" data metadata with
  | error failure => rfl
  | ok prolog =>
      cases writeSection "main" data metadata with
      | error failure => rfl
      | ok main => rfl

/-- One section on both sides of the cycle. -/
theorem section_same_iff
    (comments : Comments) {opts : ExtraOpts} {fhiclTable : List (String × ExtendedValue)}
    (hnodup : (fhiclTable.map Prod.fst).Nodup) (hlegal : membersLegal fhiclTable)
    {info : ValueInfo} {node : Object} (hnode : Regained opts node (.table fhiclTable info)) :
    ∃ children, lookup "children" node = some (.object children) ∧
      ((∃ pushed pushed',
        fillAll (memberResults (membersMetadata comments opts fhiclTable)
          (membersData opts fhiclTable)) = .ok pushed ∧
        fillAll (memberResults children (membersData opts fhiclTable)) = .ok pushed' ∧
        atomsSame pushed pushed') ↔ membersKept opts fhiclTable = true) := by
  obtain ⟨comment, nodes, hnodes, rfl⟩ := hnode
  have hkeys := hnodup.sublist (keys_membersMetadata comments opts fhiclTable)
  have hkeys' := hnodup.sublist (keys_membersRegained fhiclTable hnodes)
  exact ⟨nodes, rfl, members_same_iff fhiclTable hlegal
    (fun entry hentry => lookup_of_mem hkeys hentry) hnodes
    fun entry hentry => lookup_of_mem hkeys' hentry⟩

/-- Both sections are compared. -/
theorem tables_same_iff
    {prolog main prolog' main' : Except Failure (List Atom)} :
    (∃ tables tables', (do
          let prolog ← prolog
          let main ← main
          return some (FhiclTables.mk prolog main)) = Except.ok (some tables) ∧
        (do
          let prolog ← prolog'
          let main ← main'
          return some (FhiclTables.mk prolog main)) = Except.ok (some tables') ∧
        tables.SameAs tables') ↔
      (∃ pushed pushed', prolog = .ok pushed ∧ prolog' = .ok pushed' ∧ atomsSame pushed pushed') ∧
        ∃ pushed pushed', main = .ok pushed ∧ main' = .ok pushed' ∧ atomsSame pushed pushed' := by
  simp only [bind_eq_ok, pure, Except.pure, Except.ok.injEq, Option.some.injEq]
  constructor
  · rintro ⟨_, _, ⟨p, hp, m, hm, rfl⟩, ⟨p', hp', m', hm', rfl⟩, hprolog, hmain⟩
    exact ⟨⟨p, p', hp, hp', hprolog⟩, m, m', hm, hm', hmain⟩
  · rintro ⟨⟨p, p', hp, hp', hprolog⟩, m, m', hm, hm', hmain⟩
    exact ⟨_, _, ⟨p, hp, m, hm, rfl⟩, ⟨p', hp', m', hm', rfl⟩, hprolog, hmain⟩

theorem writeSection_eq
    {name : String} {dataNode metadataNode data node children : Object}
    (hdata : lookup name dataNode = some (.object data))
    (hnode : lookup name metadataNode = some (.object node))
    (hchildren : lookup "children" node = some (.object children)) :
    writeSection name dataNode metadataNode = fillAll (memberResults children data) := by
  simp only [writeSection, objectAt_eq_ok.2 hdata, objectAt_eq_ok.2 hnode,
    objectAt_eq_ok.2 hchildren, bind, Except.bind]

/-- Without a parameter `children` the cycle succeeds, and the exports are the same
exactly when every parameter of both sections is kept. -/
theorem edit_cycle_export
    {comments : Comments} {fhiclTable : List (String × ExtendedValue)}
    (hdecimal : ∀ digits, ReadsNumber (decimalText digits).toList)
    (hnodup : (fhiclTable.map Prod.fst).Nodup) (hlegal : membersLegal fhiclTable)
    (hmade : readData comments fhiclTable =
      .ok [("data", .object data), ("metadata", .object metadata)])
    (hread : JsonReader.read decimalText dbJson = .ok (some dbAst))
    (hdata : documentData dbAst = .ok data) (hmetadata : documentMetadata dbAst = .ok metadata)
    (hmentions : membersMention "children" data = false) :
    ∃ guiJson dbJson', jsonDbToGui decimalText dbJson = .ok guiJson ∧
      jsonGuiToDb decimalText guiJson = .ok dbJson' ∧
      ((∃ tables tables', jsonToFhicl decimalText dbJson = .ok (some tables) ∧
          jsonToFhicl decimalText dbJson' = .ok (some tables') ∧ tables.SameAs tables') ↔
        membersKept .prologMode fhiclTable = true ∧ membersKept .defaultMode fhiclTable = true) := by
  have himage := InImage.sections hnodup hlegal hmade
  obtain ⟨document, hdocument, hdata'⟩ := documentData_eq_ok.1 hdata
  obtain ⟨document', hdocument', hmetadata'⟩ := documentMetadata_eq_ok.1 hmetadata
  rw [hdocument] at hdocument'
  cases hdocument'
  have hprintable := read_printable decimalText hdecimal hread
  have hdocumentPrintable : membersPrintable document := printable_of_lookup hprintable hdocument
  have hreadable := readable_of_inImage himage (printable_of_lookup hdocumentPrintable hdata')
  obtain ⟨rfl, rfl⟩ := data_of_sections hlegal hmade
  simp [membersMention, Value.mentions] at hmentions
  obtain ⟨children, prolog, main, hrestored, hprolog, hmain⟩ :=
    restored_sections hnodup hlegal hmentions.1 hmentions.2 ⟨true, .none, 1⟩
  obtain ⟨guiJson, dbJson', dbAst', hgui, hdb, hread', hdataBack, hmetadataBack⟩ :=
    edit_cycle hdecimal hread hdocument hdata' hmetadata' hreadable hrestored
  obtain ⟨prologChildren, hprologChildren, hprologSame⟩ :=
    section_same_iff comments hnodup hlegal hprolog
  obtain ⟨mainChildren, hmainChildren, hmainSame⟩ :=
    section_same_iff comments hnodup hlegal hmain
  have hbefore := jsonToFhicl_eq hread hdata hmetadata
  have hafter := jsonToFhicl_eq hread' hdataBack hmetadataBack
  rw [writeSection_eq rfl rfl rfl, writeSection_eq rfl rfl rfl] at hbefore
  rw [writeSection_eq rfl rfl hprologChildren, writeSection_eq rfl rfl hmainChildren] at hafter
  refine ⟨guiJson, dbJson', hgui, hdb, ?_⟩
  rw [hbefore, hafter, tables_same_iff, hprologSame, hmainSame]

end

/-- `p: [ 1, 2 ]` and `t: { a: x }`. -/
def keptTable : List (String × ExtendedValue) :=
  [("p", .sequence [.scalar .number "1" ⟨false, .none, Nat.succPNat 0⟩,
      .scalar .number "2" ⟨false, .none, Nat.succPNat 0⟩] ⟨false, .none, Nat.succPNat 0⟩),
    ("t", .table [("a", .scalar .string "x" ⟨false, .none, Nat.succPNat 1⟩)]
      ⟨false, .none, Nat.succPNat 1⟩)]

end ArtdaqDatabase
