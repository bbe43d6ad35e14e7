import ArtdaqDatabase.GuiRoundTrip
import ArtdaqDatabase.FhiclSections

/-!
# Documents through the editor

A document whose data and metadata were made by `fcl2jsondb` keeps its data when it
is converted for the editor and back, if no table of the data has a parameter
`children`.  Otherwise the node of that parameter is taken from the wrong place and
the conversion fails.
-/

namespace ArtdaqDatabase

open OrderedTable

/-! ## A parameter with the name `children` -/

section

variable {comments : Comments} {opts : ExtraOpts}

/-- The children of a table stand in for the parameter `children`. -/
theorem metadataChild_children
    {o : Object} {members : List (String × ExtendedValue)} {info : ValueInfo}
    (h : Presents comments opts o (.table members info)) :
    metadataChild "children" o = .ok (some (membersMetadata comments opts members)) := by
  have hchildren := objectAt_eq_ok.2 (h.children _ rfl)
  have hconfirm : confirm ("children" ≠ "") = .ok () := rfl
  rw [metadataChild, hconfirm, hchildren]
  rfl

/-- No member of a table has a text for its metadata. -/
theorem lookup_membersMetadata_ne
    (members : List (String × ExtendedValue)) (name text : String) :
    lookup name (membersMetadata comments opts members) ≠ some (.string text) := by
  induction members with
  | nil => simp [membersMetadata]
  | cons member members ih =>
      obtain ⟨key, v⟩ := member
      rw [membersMetadata]
      split
      · rw [lookup]
        split
        · simp
        · exact ih
      · exact ih

/-- So it does not start a node of the editor. -/
theorem db2gui_membersMetadata
    (members : List (String × ExtendedValue)) (key : String) (v : Value) (g : Object) :
    db2gui key (some (membersMetadata comments opts members)) v ≠ .ok g := by
  intro h
  have ⟨comment, hcomment⟩ := db2gui_comment h
  exact lookup_membersMetadata_ne members "comment" comment hcomment

mutual

theorem db2gui_mentions
    (key : String) {o : Object} (v : ExtendedValue) (h : Presents comments opts o v)
    (hv : v.Legal) (hmentions : (dataOf opts v).mentions "children" = true) (g : Object) :
    db2gui key (some o) (dataOf opts v) ≠ .ok g := by
  intro hgui
  cases v with
  | scalar tag rawValue info => cases hmentions
  | sequence values info =>
      rw [dataOf, db2gui] at hgui
      simp only [bind_eq_ok] at hgui
      obtain ⟨comment, -, children, hchildren, -⟩ := hgui
      exact db2guiElements_mentions values 0 hv hmentions (elementsMetadata_found h) children
        hchildren
  | table members info =>
      rw [dataOf, db2gui] at hgui
      simp only [bind_eq_ok] at hgui
      obtain ⟨comment, -, children, hchildren, -⟩ := hgui
      exact db2guiMembers_mentions members hv.2 hmentions (membersMetadata_found h hv)
        (metadataChild_children h) children hchildren

theorem db2guiElements_mentions
    {o : Object} (values : List ExtendedValue) (idx : ℕ) (hvalues : valuesLegal values)
    (hmentions : valuesMention "children" (elementsData opts values) = true)
    (hfound : ∀ key child, (key, Value.object child) ∈ elementsMetadata comments opts idx values →
      metadataChild key o = .ok (some child)) (children : List Value) :
    db2guiElements (some o) idx (elementsData opts values) ≠ .ok children := by
  intro hgui
  cases values with
  | nil => cases hmentions
  | cons v values =>
      rw [elementsData, valuesMention, Bool.or_eq_true] at hmentions
      have hchild := hfound _ _ List.mem_cons_self
      rw [elementsData, db2guiElements, childOf, hchild] at hgui
      simp only [bind_eq_ok, Except.ok.injEq] at hgui
      obtain ⟨child, rfl, object, hobject, objects, hobjects, -⟩ := hgui
      rcases hmentions with hhead | htail
      · exact db2gui_mentions _ v (presents_metadataOf comments opts _ v) hvalues.1 hhead object
          hobject
      · exact db2guiElements_mentions values (idx + 1) hvalues.2 htail
          (fun key child hmem => hfound key child (List.mem_cons_of_mem _ hmem)) objects hobjects

theorem db2guiMembers_mentions
    {o : Object} {all : List (String × ExtendedValue)} (members : List (String × ExtendedValue))
    (hmembers : membersLegal members)
    (hmentions : membersMention "children" (membersData opts members) = true)
    (hfound : ∀ key child, key ≠ "children" →
      (key, Value.object child) ∈ membersMetadata comments opts members →
      metadataChild key o = .ok (some child))
    (hchildren : metadataChild "children" o = .ok (some (membersMetadata comments opts all)))
    (children : List Value) :
    db2guiMembers (some o) (membersData opts members) ≠ .ok children := by
  intro hgui
  cases members with
  | nil => cases hmentions
  | cons member members =>
      obtain ⟨key, v⟩ := member
      by_cases hselects : opts.selects v
      · rw [membersData, if_pos hselects] at hgui hmentions
        rw [membersMetadata, if_pos hselects] at hfound
        rw [db2guiMembers, childOf] at hgui
        simp only [bind_eq_ok] at hgui
        obtain ⟨child, hchild, object, hobject, objects, hobjects, -⟩ := hgui
        by_cases hkey : key = "children"
        · subst hkey
          rw [hchildren] at hchild
          cases hchild
          exact db2gui_membersMetadata all _ _ object hobject
        · rw [hfound key _ hkey List.mem_cons_self] at hchild
          cases hchild
          rw [membersMention] at hmentions
          simp only [hkey, decide_false, Bool.false_or, Bool.or_eq_true] at hmentions
          rcases hmentions with hhead | htail
          · exact db2gui_mentions key v (presents_metadataOf comments opts key v) hmembers.2.1
              hhead object hobject
          · exact db2guiMembers_mentions members hmembers.2.2 htail
              (fun key child hne hmem => hfound key child hne (List.mem_cons_of_mem _ hmem))
              hchildren objects hobjects
      · rw [membersData, if_neg hselects] at hgui hmentions
        rw [membersMetadata, if_neg hselects] at hfound
        exact db2guiMembers_mentions members hmembers.2.2 hmentions hfound hchildren children hgui

end

end

/-! ## Sections -/

theorem presents_section
    {comments : Comments} {opts : ExtraOpts} {name : String}
    (hname : toJsonString ("#" ++ name) = "#" ++ name) (members : List (String × ExtendedValue))
    (info : ValueInfo) :
    Presents comments opts (sectionNode name (membersMetadata comments opts members))
      (.table members info) := by
  constructor
  · refine ⟨.none, ?_⟩
    constructor
    · rfl
    · exact ⟨"#" ++ name, by rw [hname]; rfl⟩
    · intro h
      exact absurd rfl h
    · rfl
    · exact Nat.zero_le 1
  · intro k p hlookup
    unfold sectionNode at hlookup
    simp only [lookup] at hlookup
    split at hlookup
    · cases hlookup
    · split at hlookup
      · cases hlookup
      · split at hlookup
        · rename_i hk
          exact hk.symm
        · cases hlookup
  · intro w hw
    cases hw
    rfl

/-- The data and the metadata of a document were made by `fcl2jsondb`, either by the
reader, member by member, or out of a single tree. -/
inductive InImage : Object → Object → Prop
  | sections {comments : Comments} {fhiclTable : List (String × ExtendedValue)}
      {data metadata : Object} (hnodup : (fhiclTable.map Prod.fst).Nodup)
      (hlegal : membersLegal fhiclTable)
      (h : readData comments fhiclTable =
        .ok [("data", .object data), ("metadata", .object metadata)]) :
      InImage data metadata
  | tree {comments : Comments} {opts : ExtraOpts} {key : String} {v : ExtendedValue}
      {data metadata : Object} (hv : v.Legal)
      (h : fcl2jsondb comments opts key v = .ok ((key, .object data), (key, .object metadata))) :
      InImage data metadata

/-! ## The data of a document -/

/-- What comes back from the editor for data and metadata. -/
structure Restored (data metadata : Object) (children : List Value) (nodes : Object) : Prop where
  gui : db2guiMembers (some metadata) data = .ok children
  back : gui2db children ⟨.object [], []⟩ = .ok ⟨.object data, nodes⟩
  readable : membersReadable data → valuesReadable children ∧ membersReadable nodes

section

variable {comments : Comments} {fhiclTable : List (String × ExtendedValue)}

theorem section_legal
    (hnodup : (fhiclTable.map Prod.fst).Nodup) (hlegal : membersLegal fhiclTable)
    (info : ValueInfo) : (ExtendedValue.table fhiclTable info).Legal :=
  ⟨hnodup, hlegal⟩

/-- The nodes of the sections are found at once. -/
theorem db2guiMembers_sections
    {prolog main prologNode mainNode : Object} {children : List Value} :
    db2guiMembers (some [("prolog", .object prologNode), ("main", .object mainNode)])
        [("prolog", .object prolog), ("main", .object main)] = .ok children ↔
      ∃ g g', db2gui "prolog" (some prologNode) (.object prolog) = .ok g ∧
        db2gui "main" (some mainNode) (.object main) = .ok g' ∧
        children = [.object g, .object g'] := by
  have hprolog : metadataChild "prolog"
      [("prolog", .object prologNode), ("main", .object mainNode)] = .ok (some prologNode) := rfl
  have hmain : metadataChild "main"
      [("prolog", .object prologNode), ("main", .object mainNode)] = .ok (some mainNode) := rfl
  simp only [db2guiMembers, childOf, hprolog, hmain, bind_eq_ok, pure, Except.pure,
    Except.ok.injEq]
  constructor
  · rintro ⟨_, rfl, g, hg, _, ⟨_, rfl, g', hg', _, rfl, rfl⟩, rfl⟩
    exact ⟨g, g', hg, hg', rfl⟩
  · rintro ⟨g, g', hg, hg', rfl⟩
    exact ⟨_, rfl, g, hg, _, ⟨_, rfl, g', hg', _, rfl, rfl⟩, rfl⟩

/-- The two sections that the reader made come back one after the other. -/
theorem restored_sections
    (hnodup : (fhiclTable.map Prod.fst).Nodup) (hlegal : membersLegal fhiclTable)
    (hprolog : membersMention "children" (membersData .prologMode fhiclTable) = false)
    (hmain : membersMention "children" (membersData .defaultMode fhiclTable) = false)
    (info : ValueInfo) :
    ∃ children prolog main,
      Restored
        [("prolog", .object (membersData .prologMode fhiclTable)),
          ("main", .object (membersData .defaultMode fhiclTable))]
        [("prolog", .object (sectionNode "prolog"
            (membersMetadata comments .prologMode fhiclTable))),
          ("main", .object (sectionNode "main"
            (membersMetadata comments .defaultMode fhiclTable)))]
        children [("prolog", .object prolog), ("main", .object main)] ∧
      Regained .prologMode prolog (.table fhiclTable info) ∧
      Regained .defaultMode main (.table fhiclTable info) := by
  have hsection := section_legal hnodup hlegal info
  have hprologNode : Presents comments .prologMode (sectionNode "prolog" _) _ :=
    presents_section (by decide) fhiclTable info
  have hmainNode : Presents comments .defaultMode (sectionNode "main" _) _ :=
    presents_section (by decide) fhiclTable info
  obtain ⟨g, prolog, hg⟩ := regains_value "prolog" _ hprologNode hsection hprolog
  obtain ⟨g', main, hg'⟩ := regains_value "main" _ hmainNode hsection hmain
  refine ⟨[.object g, .object g'], prolog, main, ⟨?_, ?_, fun hdata => ?_⟩, hg.regained,
    hg'.regained⟩
  · exact db2guiMembers_sections.2 ⟨g, g', hg.gui, hg'.gui, rfl⟩
  · have hback := hg.member [] []
    have hback' := hg'.member [("prolog", dataOf .prologMode (.table fhiclTable info))]
      [("prolog", .object prolog)]
    rw [gui2db, hback]
    simp only [bind, Except.bind, List.nil_append]
    rw [gui2db, hback']
    rfl
  · have hhead := hg.readable (by decide) hdata.2.1
    have htail := hg'.readable (by decide) hdata.2.2.2.1
    exact ⟨⟨hhead.1, htail.1, trivial⟩, by decide, hhead.2, by decide, htail.2, trivial⟩

end

theorem data_of_sections
    {comments : Comments} {fhiclTable : List (String × ExtendedValue)} {data metadata : Object}
    (hlegal : membersLegal fhiclTable)
    (h : readData comments fhiclTable =
      .ok [("data", .object data), ("metadata", .object metadata)]) :
    data = [("prolog", .object (membersData .prologMode fhiclTable)),
        ("main", .object (membersData .defaultMode fhiclTable))] ∧
      metadata = [
        ("prolog", .object (sectionNode "prolog"
          (membersMetadata comments .prologMode fhiclTable))),
        ("main", .object (sectionNode "main"
          (membersMetadata comments .defaultMode fhiclTable)))] := by
  have heq := readData_eq_ok hlegal h
  simp only [List.cons.injEq, Prod.mk.injEq, Value.object.injEq, true_and, and_true] at heq
  exact heq

/-- The metadata of a table do not end up in the place of a parameter. -/
theorem restored_of_inImage
    {data metadata : Object} (h : InImage data metadata)
    (hmentions : membersMention "children" data = false) :
    ∃ children nodes, Restored data metadata children nodes := by
  cases h with
  | sections hnodup hlegal h =>
      obtain ⟨rfl, rfl⟩ := data_of_sections hlegal h
      simp [membersMention, Value.mentions] at hmentions
      obtain ⟨children, prolog, main, hrestored, -⟩ :=
        restored_sections hnodup hlegal hmentions.1 hmentions.2 ⟨true, .none, 1⟩
      exact ⟨children, _, hrestored⟩
  | @tree comments opts key v data metadata hv h =>
      have hpair := fcl2jsondb_eq_ok hv h
      simp only [splitPair, Prod.mk.injEq, Value.object.injEq, true_and] at hpair
      obtain ⟨hdata, rfl⟩ := hpair
      cases v with
      | table members info =>
          rw [dataOf, Value.object.injEq] at hdata
          subst hdata
          have hpresents := presents_metadataOf comments opts key (.table members info)
          have hnames : ∀ name ∈ (membersMetadata comments opts members).map Prod.fst,
              name ≠ "children" := keys_membersMetadata_of_mentions members "children" hmentions
          obtain ⟨children, nodes, hgui, hback, -, hreadable⟩ :=
            regains_members members hv.2 hmentions fun name child hmem =>
              membersMetadata_found hpresents hv name child
                (hnames name (List.mem_map.2 ⟨_, hmem, rfl⟩)) hmem
          exact ⟨children, nodes, hgui, hback [] [], hreadable⟩
      | scalar tag rawValue info => cases hdata
      | sequence values info => cases hdata

/-- A parameter `children` stops the conversion. -/
theorem db2guiMembers_inImage
    {data metadata : Object} (h : InImage data metadata)
    (hmentions : membersMention "children" data = true) (children : List Value) :
    db2guiMembers (some metadata) data ≠ .ok children := by
  cases h with
  | @sections comments fhiclTable _ _ hnodup hlegal h =>
      obtain ⟨rfl, rfl⟩ := data_of_sections hlegal h
      intro hgui
      obtain ⟨g, g', hg, hg', -⟩ := db2guiMembers_sections.1 hgui
      have hsection := section_legal hnodup hlegal ⟨true, .none, 1⟩
      have hprologNode : Presents comments .prologMode (sectionNode "prolog" _) _ :=
        presents_section (by decide) fhiclTable ⟨true, .none, 1⟩
      have hmainNode : Presents comments .defaultMode (sectionNode "main" _) _ :=
        presents_section (by decide) fhiclTable ⟨true, .none, 1⟩
      simp [membersMention, Value.mentions] at hmentions
      rcases hmentions with hprolog | hmain
      · exact db2gui_mentions "prolog" _ hprologNode hsection hprolog g hg
      · exact db2gui_mentions "main" _ hmainNode hsection hmain g' hg'
  | @tree comments opts key v data metadata hv h =>
      have hpair := fcl2jsondb_eq_ok hv h
      simp only [splitPair, Prod.mk.injEq, Value.object.injEq, true_and] at hpair
      obtain ⟨hdata, rfl⟩ := hpair
      cases v with
      | table members info =>
          rw [dataOf, Value.object.injEq] at hdata
          subst hdata
          have hpresents := presents_metadataOf comments opts key (.table members info)
          exact db2guiMembers_mentions members hv.2 hmentions (membersMetadata_found hpresents hv)
            (metadataChild_children hpresents) children
      | scalar tag rawValue info => cases hdata
      | sequence values info => cases hdata

end ArtdaqDatabase
