import LexiconCompiler.Compilation
import LexiconCompiler.Proofs.Emission.IndexUnit
import LexiconCompiler.Proofs.Registry
import LexiconCompiler.Proofs.Schema.Canonical
import LexiconCompiler.Proofs.Schema.Soundness

set_option autoImplicit false
set_option relaxedAutoImplicit false

/-!
The units of a compilation fit together: whatever one of them names is declared, in itself or in the
unit that it says.
-/

namespace LexiconCompiler

open LexiconCompiler.Code LexiconCompiler.Emission LexiconCompiler.Markup LexiconCompiler.Text

/-- What is declared for a unit of a compilation: its own declarations, and those of the units of
the compilation by their names. -/
def Compilation.Declares (c : Compilation) (u : SourceUnit) : Known
  | none, name => u.declares name = true
  | some other, name => ∃ v, c.unit? other = some v ∧ v.declares name = true

theorem Batch.compile_eq_ok {b : Batch} {skipGuards : Bool} {c : Compilation}
    (h : b.compile skipGuards false = .ok c) :
    ∃ documents lexicons index, c.units = documents ++ [lexicons, index] ∧
      List.Forall₂ (fun document u => documentUnit b.registry skipGuards document = .ok u)
        b.registry.documents documents ∧
      lexiconsUnit b.registry = .ok lexicons ∧ indexUnit b.tree b.tokens = .ok index := by
  simp only [Batch.compile, Batch.aggregate, Bool.false_eq_true, if_false, Outcome.bind_eq_ok,
    Outcome.mapError_eq_ok, Outcome.pure_eq_ok] at h
  obtain ⟨documents, hd, lexicons, hl, index, hi, rfl⟩ := h
  exact ⟨documents, lexicons, index, rfl, Outcome.mapM_eq_ok hd, hl, hi⟩

private theorem Batch.analyze_eq_ok {inputs : List (Option Document)} {b : Batch}
    (h : Batch.analyze inputs = .ok b) :
    Registry.build inputs = .ok b.registry ∧
      NamespaceTree.build b.registry.documents = .ok b.tree := by
  simp only [Batch.analyze, Outcome.bind_eq_ok, Outcome.pure_eq_ok] at h
  obtain ⟨registry, hr, tree, ht, tokens, _, rfl⟩ := h
  exact ⟨hr, ht⟩

private theorem admitsIn_of_linked {documents : List Document} (hd : DistinctIds documents)
    (hl : Linked documents) {document : Document} (hm : document ∈ documents) :
    ∀ definition ∈ document.defs, Scope.AdmitsIn ⟨⟨documents⟩, document.id⟩ definition.type := by
  intro definition hdef t ht ref hc address target htarget
  obtain ⟨address', target', hleads⟩ := hl document hm ref ⟨definition, hdef, t, ht, hc⟩
  rw [Scope.target_of_leads hd hleads, Except.ok.injEq, Prod.mk.injEq] at htarget
  rw [← htarget.2]
  exact hleads.allowed

private theorem Draft.mem_of_def?_eq_some {d : Draft} {name : String} {t : SchemaType}
    (h : d.def? name = some t) : ⟨name, t⟩ ∈ d.defs := by
  obtain ⟨definition, hf, rfl⟩ := Option.map_eq_some_iff.mp h
  have hname : definition.name = name := by simpa using List.find?_some hf
  rw [← hname]
  exact List.mem_of_find?_eq_some hf

theorem lexiconsUnit_bound {registry : Registry} {v : SourceUnit}
    (h : lexiconsUnit registry = .ok v) :
    v.name = lexiconsName ∧ v.declares "lexicons" = true ∧ v.declares "schemas" = true ∧
      ∀ decl ∈ v.decls, decl.Bound (Visible (fun _ _ => False) v) := by
  simp only [lexiconsUnit, Outcome.bind_eq_ok, Outcome.pure_eq_ok] at h
  obtain ⟨schemas, _, rfl⟩ := h
  refine ⟨rfl, rfl, rfl, ?_⟩
  have hlist {known : Known} {scope : List String} : schemaList.Bound known scope :=
    .array .runtime
  intro decl hd
  simp only [List.mem_cons, List.not_mem_nil, or_false] at hd
  rcases hd with rfl | rfl | rfl | rfl
  · refine ⟨by simp, .object fun entry he => ?_⟩
    obtain ⟨schema, _, rfl⟩ := List.mem_map.mp he
    exact .json
  · refine ⟨fun type ht => ?_, .cast (.values (.ident (Or.inr (Or.inr ⟨rfl, rfl⟩)))) hlist⟩
    obtain rfl := Option.some.inj ht
    exact hlist
  · refine ⟨by simp, .construct .runtime fun arg ha => ?_⟩
    obtain rfl := List.mem_singleton.mp ha
    exact .ident (Or.inr (Or.inr ⟨rfl, rfl⟩))
  · refine ⟨by simp, .object fun entry he => ?_⟩
    obtain ⟨schema, _, rfl⟩ := List.mem_map.mp he
    exact .str

/-- A compilation of linked documents, unit by unit. -/
structure Compiled (documents : List Document) (skipGuards : Bool) (tree : NamespaceTree)
    (tokens : TokenGroups) (c : Compilation) (own : List SourceUnit)
    (lexicons index : SourceUnit) : Prop where
  distinct : DistinctIds documents
  linked : Linked documents
  identified : Identified documents
  sound : tree.Sound documents
  units : c.units = own ++ [lexicons, index]
  own : List.Forall₂ (fun document u => documentUnit ⟨documents⟩ skipGuards document = .ok u)
    documents own
  lexicons : lexiconsUnit ⟨documents⟩ = .ok lexicons
  index : indexUnit tree tokens = .ok index

namespace Compiled

variable {documents : List Document} {skipGuards : Bool} {tree : NamespaceTree}
  {tokens : TokenGroups} {c : Compilation} {own : List SourceUnit} {lexicons index : SourceUnit}

private theorem grows (h : Compiled documents skipGuards tree tokens c own lexicons index)
    {document : Document} (hd : document ∈ documents) {u : SourceUnit}
    (hu : documentUnit ⟨documents⟩ skipGuards document = .ok u) :
    u.name = document.id ∧
      (∀ decl ∈ u.decls, decl.Bound (Visible (Scope.Offers ⟨⟨documents⟩, document.id⟩) u)) ∧
      ∀ definition ∈ document.defs, Emission.Declares u definition :=
  documentUnit_grows (admitsIn_of_linked h.distinct h.linked hd) hu

theorem own_name (h : Compiled documents skipGuards tree tokens c own lexicons index)
    {u : SourceUnit} (hu : u ∈ own) :
    ∃ document ∈ documents, documentUnit ⟨documents⟩ skipGuards document = .ok u ∧
      u.name = document.id := by
  obtain ⟨document, hd, hmade⟩ := exists_of_forall₂_mem h.own hu
  exact ⟨document, hd, hmade, (h.grows hd hmade).1⟩

theorem own_names (h : Compiled documents skipGuards tree tokens c own lexicons index) :
    own.map SourceUnit.name = documents.map fun document => document.id := by
  have hmade : List.Forall₂ (fun document u => document ∈ documents ∧
      documentUnit ⟨documents⟩ skipGuards document = .ok u) documents own :=
    (List.forall₂_and_left _ _).mpr ⟨fun _ hd => hd, h.own⟩
  rw [← List.forall₂_eq_eq_eq, List.forall₂_map_left_iff, List.forall₂_map_right_iff]
  exact (hmade.imp fun _ _ hu => (h.grows hu.1 hu.2).1).flip

theorem unit?_document (h : Compiled documents skipGuards tree tokens c own lexicons index)
    {document : Document} (hd : document ∈ documents) :
    ∃ u, c.unit? document.id = some u ∧ documentUnit ⟨documents⟩ skipGuards document = .ok u := by
  have hvalid := h.identified.isValid hd
  obtain ⟨made, hmem, hmade⟩ := exists_of_forall₂_mem h.own.flip hd
  refine ⟨made, ?_, hmade⟩
  rw [Compilation.unit?, h.units]
  refine find?_eq_some_of_unique (List.mem_append_left _ hmem)
    (by simpa using (h.grows hd hmade).1) fun u hu hfound => ?_
  have hname : u.name = document.id := by simpa using hfound
  -- Identifiers of documents differ, and neither unit of the batch has a valid one as its name.
  rcases List.mem_append.mp hu with hown | hrest
  · obtain ⟨other, ho, hmade', hname'⟩ := h.own_name hown
    rw [h.distinct.eq_of_id_eq ho hd (hname'.symm.trans hname), hmade] at hmade'
    exact (Except.ok.inj hmade').symm
  · simp only [List.mem_cons, List.not_mem_nil, or_false] at hrest
    rcases hrest with rfl | rfl
    · rw [← hname, (lexiconsUnit_bound h.lexicons).1] at hvalid
      exact absurd hvalid (by decide)
    · rw [← hname, (indexUnit_grows h.sound h.index).1] at hvalid
      exact absurd hvalid (by decide)

private theorem find?_own_eq_none
    (h : Compiled documents skipGuards tree tokens c own lexicons index) {name : String}
    (hname : Nsid.isValid name = false) :
    own.find? (fun u => u.name == name) = none := by
  rw [List.find?_eq_none]
  intro u hu hsame
  obtain ⟨document, hd, _, hid⟩ := h.own_name hu
  have hvalid := h.identified.isValid hd
  rw [← hid, eq_of_beq hsame, hname] at hvalid
  cases hvalid

private theorem unit?_lexicons
    (h : Compiled documents skipGuards tree tokens c own lexicons index) :
    c.unit? lexiconsName = some lexicons := by
  have hnone := h.find?_own_eq_none (show Nsid.isValid lexiconsName = false by decide)
  have hlexicons := (lexiconsUnit_bound h.lexicons).1
  simp [Compilation.unit?, h.units, hnone, hlexicons]

theorem unit?_index (h : Compiled documents skipGuards tree tokens c own lexicons index) :
    c.unit? indexName = some index := by
  have hnone := h.find?_own_eq_none (show Nsid.isValid indexName = false by decide)
  have hlexicons : (lexicons.name == indexName) = false := by
    rw [(lexiconsUnit_bound h.lexicons).1]
    rfl
  have hindex := (indexUnit_grows h.sound h.index).1
  simp [Compilation.unit?, h.units, hnone, hlexicons, hindex]

theorem of_compile (hid : Identified documents) {b : Batch}
    (hb : Batch.analyze (documents.map some) = .ok b) (hc : b.compile skipGuards false = .ok c) :
    ∃ own lexicons index,
      Compiled documents skipGuards b.tree b.tokens c own lexicons index := by
  obtain ⟨⟨hd, hl⟩, htree, _, hregistry, _⟩ := Batch.analyze_eq_ok_iff.mp hb
  obtain ⟨own, lexicons, index, hunits, hown, hlexicons, hindex⟩ := Batch.compile_eq_ok hc
  rw [hregistry] at hown hlexicons
  exact ⟨own, lexicons, index, hd, hl, hid, NamespaceTree.build_sound htree, hunits, hown,
    hlexicons, hindex⟩

private theorem declares_of_offers
    (h : Compiled documents skipGuards tree tokens c own lexicons index) {document : Document}
    (hd : document ∈ documents) {u : SourceUnit}
    (hu : documentUnit ⟨documents⟩ skipGuards document = .ok u) {unit : Option String}
    {name : String} (ho : Scope.Offers ⟨⟨documents⟩, document.id⟩ unit name) :
    c.Declares u unit name := by
  have hfound {address : Address} {target : SchemaType} {other : Document} {v : SourceUnit}
      (hother : other ∈ documents) (hv : documentUnit ⟨documents⟩ skipGuards other = .ok v)
      (hdef : other.def? address.fragment = some target) (hp : target.kind.isPrimary = false)
      (hk : target.kind ≠ .token) :
      v.declares (typeName address.fragment target.kind) = true := by
    have hdeclares := (h.grows hother hv).2.2 _ (Draft.mem_of_def?_eq_some hdef)
    refine hdeclares.type hk ?_
    cases hkind : target.kind with
    | query | procedure => simp [hkind, Kind.isPrimary] at hp
    | _ => rfl
  cases ho with
  | here hf hp hk hn =>
    obtain ⟨other, hother, hid, hdef⟩ := (Registry.find?_eq_some h.distinct).mp hf
    have hsame := h.distinct.eq_of_id_eq hother hd (hid.trans hn)
    rw [hsame] at hdef
    exact hfound hd hu hdef hp hk
  | there hf hp hk =>
    obtain ⟨other, hother, hid, hdef⟩ := (Registry.find?_eq_some h.distinct).mp hf
    obtain ⟨v, hv, hmade⟩ := h.unit?_document hother
    rw [hid] at hv
    exact ⟨v, hv, hfound hother hmade hdef hp hk⟩
  | validator => exact ⟨lexicons, h.unit?_lexicons, (lexiconsUnit_bound h.lexicons).2.1⟩

theorem declares_handler (h : Compiled documents skipGuards tree tokens c own lexicons index)
    {document : Document} (hd : document ∈ documents) (hm : document.isMethod = true) :
    ∃ v, c.unit? document.nsid.text = some v ∧ v.declares "Handler" = true := by
  obtain ⟨v, hv, hmade⟩ := h.unit?_document hd
  rw [Nsid.text_of_parse (h.identified document hd)]
  refine ⟨v, hv, ?_⟩
  simp only [Draft.isMethod, Draft.mainKind?, Option.any_map, Option.any_eq_true] at hm
  obtain ⟨t, ht, hkind⟩ := hm
  have hdeclares := (h.grows hd hmade).2.2 _ (Draft.mem_of_def?_eq_some ht)
  exact hdeclares.handler hkind rfl

private theorem declares_of_serves
    (h : Compiled documents skipGuards tree tokens c own lexicons index) {unit : Option String}
    {name : String} (hs : Serves tree unit name) :
    c.Declares index unit name := by
  obtain ⟨_, _, hserver, hclasses⟩ := indexUnit_grows h.sound h.index
  cases hs with
  | server => exact hserver
  | cls hn => exact hclasses _ _ hn
  | schemas => exact ⟨lexicons, h.unit?_lexicons, (lexiconsUnit_bound h.lexicons).2.2.1⟩
  | handler hn hm =>
    obtain ⟨document, hd, hmethod, rfl⟩ :=
      h.sound.methods _ (NamespaceTree.mem_namespaces_of_mem_walk hn) _ hm
    exact h.declares_handler hd hmethod

end Compiled

private theorem Compilation.bound_of_visible {c : Compilation} {u : SourceUnit} {known : Known}
    (hknown : ∀ unit name, known unit name → c.Declares u unit name)
    (h : ∀ decl ∈ u.decls, decl.Bound (Visible known u)) :
    ∀ decl ∈ u.decls, decl.Bound (c.Declares u) := by
  intro decl hd
  refine (h decl hd).mono ?_
  rintro unit name (hk | ⟨rfl, hdeclares⟩)
  · exact hknown unit name hk
  · exact hdeclares

namespace Batch

/-- Whatever a unit of a compilation names is declared: in the unit itself, or in the unit of the
compilation that it says. -/
theorem compile_bound {documents : List Document} {b : Batch} {skipGuards : Bool}
    {c : Compilation}
    (hread : ∀ document ∈ documents, ∃ node, Document.ofNode node = .ok document)
    (hb : Batch.analyze (documents.map some) = .ok b)
    (hc : b.compile skipGuards false = .ok c) :
    ∀ u ∈ c.units, ∀ decl ∈ u.decls, decl.Bound (c.Declares u) := by
  obtain ⟨hregistry, htree⟩ := Batch.analyze_eq_ok hb
  obtain ⟨hdocuments, hdistinct, hlinked⟩ := Registry.build_eq_ok_iff.mp hregistry
  obtain ⟨own, lexicons, index, hunits, hown, hlexicons, hindex⟩ := Batch.compile_eq_ok hc
  have hsame : documents = b.registry.documents :=
    List.map_injective_iff.mpr (fun _ _ => Option.some.inj) hdocuments
  have hidentified : Identified documents := by
    intro document hd
    obtain ⟨node, hnode⟩ := hread document hd
    exact ((Document.ofNode_eq_ok_iff node document).mp hnode).2.2.2.2.1
  rw [hsame] at hidentified
  have h : Compiled b.registry.documents skipGuards b.tree b.tokens c own lexicons index :=
    ⟨hdistinct, hlinked, hidentified, NamespaceTree.build_sound htree, hunits, hown, hlexicons,
      hindex⟩
  intro u hu
  rw [h.units, List.mem_append] at hu
  rcases hu with hu | hu
  · obtain ⟨document, hd, hmade, _⟩ := h.own_name hu
    exact Compilation.bound_of_visible (fun _ _ => h.declares_of_offers hd hmade)
      (h.grows hd hmade).2.1
  · simp only [List.mem_cons, List.not_mem_nil, or_false] at hu
    rcases hu with rfl | rfl
    · exact Compilation.bound_of_visible (fun _ _ => False.elim)
        (lexiconsUnit_bound h.lexicons).2.2.2
    · exact Compilation.bound_of_visible (fun _ _ => h.declares_of_serves)
        (indexUnit_grows h.sound h.index).2.1

def likesNode : Node :=
  .record [
    ("lexicon", some (.scalar .int "1")),
    ("id", some (.text "com.example.getLikes")),
    ("defs", some (.record [
      ("main", some (.record [
        ("type", some (.text "query")),
        ("output", some (.record [
          ("encoding", some (.text "application/json")),
          ("schema", some (.text "#view"))]))])),
      ("view", some (.record [
        ("type", some (.text "object")),
        ("properties", some (.record [
          ("subject", some (.text "com.example.defs#post"))]))]))]))]

def postsNode : Node :=
  .record [
    ("lexicon", some (.scalar .int "1")),
    ("id", some (.text "com.example.defs")),
    ("defs", some (.record [("post", some (.record [("type", some (.text "string"))]))]))]

def likes : List Document :=
  [⟨⟨1, "com.example.getLikes", none, "",
      [⟨"main", .method "" .query
          ⟨none, none, some ⟨"", ⟨["application/json"], false⟩, some (.ref "" "#view")⟩, []⟩⟩,
        ⟨"view", .object ⟨"", [], [⟨"subject", .ref "" "com.example.defs#post"⟩], false⟩⟩]⟩,
      "", [], ⟨["com", "example", "getLikes"]⟩, likesNode⟩,
    ⟨⟨1, "com.example.defs", none, "",
      [⟨"post", .string "" ⟨none, none, none, none, [], []⟩⟩]⟩,
      "", [], ⟨["com", "example", "defs"]⟩, postsNode⟩]

theorem likes_read : ∀ document ∈ likes, ∃ node, Document.ofNode node = .ok document := by
  intro document hd
  simp only [likes, List.mem_cons, List.not_mem_nil, or_false] at hd
  rcases hd with rfl | rfl
  · exact ⟨likesNode, rfl⟩
  · exact ⟨postsNode, rfl⟩

theorem likes_compile :
    ∃ b c, Batch.analyze (likes.map some) = .ok b ∧ b.compile false false = .ok c ∧
      c.units.map SourceUnit.name =
        ["com.example.getLikes", "com.example.defs", lexiconsName, indexName] := by
  have hnames : ((Batch.analyze (likes.map some)).toOption.bind fun b =>
      (b.compile false false).toOption.map fun c => c.units.map SourceUnit.name) =
        some ["com.example.getLikes", "com.example.defs", lexiconsName, indexName] := by
    decide +kernel
  obtain ⟨b, hb, hunits⟩ := Option.bind_eq_some_iff.mp hnames
  obtain ⟨c, hc, hunits⟩ := Option.map_eq_some_iff.mp hunits
  exact ⟨b, c, Outcome.toOption_eq_some.mp hb, Outcome.toOption_eq_some.mp hc, hunits⟩

theorem compile_bound_likes :
    ∃ b c, Batch.analyze (likes.map some) = .ok b ∧ b.compile false false = .ok c ∧
      c.units.map SourceUnit.name =
        ["com.example.getLikes", "com.example.defs", lexiconsName, indexName] ∧
      ∀ u ∈ c.units, ∀ decl ∈ u.decls, decl.Bound (c.Declares u) := by
  obtain ⟨b, c, hb, hc, hnames⟩ := likes_compile
  exact ⟨b, c, hb, hc, hnames, compile_bound likes_read hb hc⟩

end Batch

end LexiconCompiler
