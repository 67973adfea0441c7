import LexiconCompiler.Proofs.Compilation.Names
import LexiconCompiler.Proofs.Definitions
import LexiconCompiler.Proofs.Emission.Places

set_option autoImplicit false
set_option relaxedAutoImplicit false

/-!
The tokens of a batch. Each of them is in one group under one name, and its value is its address
wherever it is written: as a constant of its document, in the constant of its group, and in the
place of every reference to it.
-/

namespace LexiconCompiler

open LexiconCompiler.Code LexiconCompiler.Emission LexiconCompiler.Markup LexiconCompiler.Text

def tokenSites (documents : List Document) : List (Document × Definition) :=
  (definitionSites documents).filter fun site => site.2.type.kind == .token

def Document.token (document : Document) (definition : Definition) : Token :=
  ⟨document.nsid.authority,
    if definition.name == mainDef then document.nsid.name
    else document.nsid.name ++ "#" ++ definition.name⟩

/-- The groups hold each token of the documents once, and a token is spelled like the address of its
definition. -/
structure TokenGroups.Represents (g : TokenGroups) (documents : List Document) : Prop where
  pairs : ((tokenSites documents).map fun site => site.1.token site.2).Perm g.pairs
  nodup : g.pairs.Nodup
  count : g.count = (tokenSites documents).length
  address : ∀ site ∈ tokenSites documents,
    (site.1.token site.2).address = (site.1.address site.2).text

/-- The value of a token is its address: in the constant of its own unit, in the constant of its
group, and in all places of references to it, in whatever document they are and however they are
spelled. -/
structure Compilation.Carries (c : Compilation) (documents : List Document) (document : Document)
    (definition : Definition) : Prop where
  constant : ∃ u doc, c.unit? document.id = some u ∧
    u.decl? (Casing.screaming definition.name) = some ⟨Casing.screaming definition.name, doc,
      .const none (.str (document.address definition).text)⟩
  entry : ∃ u doc entries, c.unit? indexName = some u ∧
    u.decl? (Casing.screaming document.nsid.authority) =
      some ⟨Casing.screaming document.nsid.authority, doc, .const none (.object entries)⟩ ∧
    entries.find? (fun entry => entry.key == Casing.title (document.token definition).name) =
      some ⟨Casing.title (document.token definition).name,
        .str (document.address definition).text⟩
  literal : ∀ user ∈ documents, ∃ u, c.unit? user.id = some u ∧
    ∀ other ∈ user.defs, ∀ ref type,
      Address.parse ref user.id = .ok (document.address definition) →
      (u.HasInPlace other ref type ↔
        other.type.carried.Holds ref ∧ type = .literal (.str (document.address definition).text))
  spelled : ∀ ref base, Address.parse ref base = .ok (document.address definition) ↔
    ref = document.id ++ "#" ++ definition.name ∨ ref = (document.address definition).text ∨
      (base = document.id ∧ ref = "#" ++ definition.name)

section Sites

variable {documents : List Document} {document : Document} {definition : Definition}

private theorem mem_tokenSites :
    (document, definition) ∈ tokenSites documents ↔
      document ∈ documents ∧ definition ∈ document.defs ∧ definition.type.kind = .token := by
  rw [tokenSites, List.mem_filter, mem_definitionSites, beq_iff_eq, and_assoc]

private theorem flatMap_ofDocument (documents : List Document) :
    documents.flatMap TokenGroups.ofDocument =
      (tokenSites documents).map fun site => site.1.token site.2 := by
  rw [tokenSites, definitionSites, List.filter_flatMap, List.map_flatMap]
  refine List.flatMap_congr fun document _ => ?_
  rw [List.filter_map, List.map_map]
  rfl

private theorem address_token (hid : Nsid.parse document.id = .ok document.nsid) :
    (document.token definition).address = (document.address definition).text := by
  have htext := Nsid.text_of_parse hid
  rw [Nsid.text_eq (Nsid.authoritySegments_ne_nil hid)] at htext
  rw [Token.address, Document.token, Address.text, Address.isMain, Document.address]
  by_cases hmain : (definition.name == mainDef) = true
  · rw [if_pos hmain, if_pos hmain, htext]
  · rw [if_neg hmain, if_neg hmain, Address.full, ← htext]
    simp only [String.append_assoc]

private theorem eq_token_of_kind {t : SchemaType} (h : t.kind = .token) : ∃ d, t = .token d := by
  cases t with
  | token d => exact ⟨d, rfl⟩
  | object o => cases hp : o.params <;> simp [SchemaType.kind, ObjectType.kind, hp] at h
  | method d kind m => cases kind <;> cases h
  | _ => cases h

end Sites

section Groups

variable {documents : List Document} (hd : DistinctIds documents) (hid : Identified documents)
  (hw : ∀ document ∈ documents, document.toDraft.WellFormed)
include hd hid hw

private theorem nodup_tokens :
    ((tokenSites documents).map fun site => site.1.token site.2).Nodup := by
  have haddresses : ((tokenSites documents).map fun site => site.1.address site.2).Nodup :=
    (nodup_addresses hd hw).sublist (List.filter_sublist.map _)
  have hproper : ∀ address ∈ (tokenSites documents).map fun site => site.1.address site.2,
      address.Proper := by
    intro address ha
    obtain ⟨⟨document, definition⟩, hsite, rfl⟩ := List.mem_map.mp ha
    obtain ⟨hm, hdef, _⟩ := mem_tokenSites.mp hsite
    exact Document.proper_address (hw document hm) hdef
  have htexts := List.Nodup.map_on
    (fun a ha b hb => (hproper a ha).text_inj (hproper b hb)) haddresses
  -- Different definitions have different addresses, and a token is spelled like its address.
  have hsame : ((tokenSites documents).map fun site => site.1.token site.2).map Token.address =
      ((tokenSites documents).map fun site => site.1.address site.2).map Address.text := by
    rw [List.map_map, List.map_map]
    refine List.map_congr_left fun site hsite => ?_
    exact address_token (hid site.1 (mem_tokenSites.mp hsite).1)
  rw [← hsame] at htexts
  exact htexts.of_map

private theorem represents_ofDocuments :
    (TokenGroups.ofDocuments documents).Represents documents := by
  have hn := nodup_tokens hd hid hw
  have htokens : (TokenGroups.ofDocuments documents).tokens =
      (tokenSites documents).map fun site => site.1.token site.2 := by
    rw [TokenGroups.ofDocuments, flatMap_ofDocument, distinct_eq_self hn]
  have hperm := (TokenGroups.ofDocuments documents).pairs_perm
  rw [htokens] at hperm
  refine ⟨hperm.symm, hperm.nodup_iff.mpr hn, ?_, ?_⟩
  · rw [TokenGroups.count, htokens, List.length_map]
  · rintro ⟨document, definition⟩ hsite
    exact address_token (hid document (mem_tokenSites.mp hsite).1)

end Groups

section Units

variable {document : Document} {definition : Definition}

private theorem refExpr_token {documents : List Document} (hd : DistinctIds documents)
    (hw : ∀ document ∈ documents, document.toDraft.WellFormed)
    (hsite : (document, definition) ∈ tokenSites documents) {base ref : String}
    (hp : Address.parse ref base = .ok (document.address definition)) :
    Scope.refExpr ⟨⟨documents⟩, base⟩ ref =
      .literal (.str (document.address definition).text) := by
  obtain ⟨hm, hdef, hkind⟩ := mem_tokenSites.mp hsite
  have htarget : Scope.target ⟨⟨documents⟩, base⟩ ref =
      .ok (document.address definition, definition.type) := by
    simp only [Scope.target, hp, find?_address hd hw hm hdef]
  simp [Scope.refExpr, htarget, hkind]

private theorem decl?_token {s : Scope} {skipGuards : Bool} {u : SourceUnit}
    (hn : (u.decls.map Decl.name).Nodup)
    (hdecls : u.decls = document.defs.flatMap (s.definitionDecls skipGuards))
    (hdef : definition ∈ document.defs) (hkind : definition.type.kind = .token) :
    ∃ doc, u.decl? (Casing.screaming definition.name) = some ⟨Casing.screaming definition.name, doc,
      .const none (.str (Address.text ⟨s.document, definition.name⟩))⟩ := by
  obtain ⟨d, ht⟩ := eq_token_of_kind hkind
  have hdecl : ⟨Casing.screaming definition.name, documentation definition.type,
      .const none (.str (Address.text ⟨s.document, definition.name⟩))⟩ ∈ u.decls := by
    rw [hdecls]
    refine List.mem_flatMap.mpr ⟨definition, hdef, ?_⟩
    simp [Scope.definitionDecls, ht]
  have hfound := SourceUnit.decl?_of_mem hn hdecl
  exact ⟨_, hfound⟩

private theorem decl?_group {tree : NamespaceTree} {tokens : TokenGroups} {u : SourceUnit}
    (hindex : indexUnit tree tokens = .ok u) (hwritable : tokens.Writable) {token : Token}
    (ht : token ∈ tokens.tokens) :
    ∃ doc entries, u.decl? (Casing.screaming token.group) =
        some ⟨Casing.screaming token.group, doc, .const none (.object entries)⟩ ∧
      entries.find? (fun entry => entry.key == Casing.title token.name) =
        some ⟨Casing.title token.name, .str token.address⟩ := by
  obtain ⟨hn, _, hdecls⟩ := indexUnit_eq_ok hindex
  have hgroup : token.group ∈ tokens.groups := mem_distinct.mpr (List.mem_map_of_mem ht)
  have hname : token.name ∈ tokens.names token.group :=
    List.mem_map_of_mem (List.mem_filter.mpr ⟨ht, beq_self_eq_true _⟩)
  have hdecl : groupDecl tokens token.group ∈ u.decls := by
    rw [hdecls]
    exact List.mem_append_left _ (List.mem_map_of_mem hgroup)
  rw [← hdecls] at hn
  have hfound := SourceUnit.decl?_of_mem hn hdecl
  refine ⟨_, _, hfound, ?_⟩
  refine find?_eq_some_of_unique (List.mem_map_of_mem hname) (beq_self_eq_true _)
    fun entry he hkey => ?_
  obtain ⟨name, hother, rfl⟩ := List.mem_map.mp he
  have hsame : TokenGroups.nameKey name = TokenGroups.nameKey token.name :=
    congrArg lower (eq_of_beq hkey)
  rw [List.inj_on_of_nodup_map (hwritable.2 _ hgroup) hother hname hsame]

end Units

private theorem Compiled.carries {documents : List Document} {skipGuards : Bool}
    {tree : NamespaceTree} {c : Compilation} {own : List SourceUnit} {lexicons index : SourceUnit}
    (h : Compiled documents skipGuards tree (.ofDocuments documents) c own lexicons index)
    (hw : ∀ document ∈ documents, document.toDraft.WellFormed)
    (hwritable : (TokenGroups.ofDocuments documents).Writable) {document : Document}
    {definition : Definition} (hsite : (document, definition) ∈ tokenSites documents) :
    c.Carries documents document definition := by
  obtain ⟨hm, hdef, hkind⟩ := mem_tokenSites.mp hsite
  have hgroups := represents_ofDocuments h.distinct h.identified hw
  constructor
  · obtain ⟨u, hu, hmade⟩ := h.unit?_document hm
    obtain ⟨hn, _, hdecls⟩ := documentUnit_eq_ok h.distinct h.linked hm (hw document hm) hmade
    obtain ⟨doc, hdecl⟩ := decl?_token hn hdecls hdef hkind
    exact ⟨u, doc, hu, hdecl⟩
  · have htoken : document.token definition ∈ (TokenGroups.ofDocuments documents).tokens :=
      (TokenGroups.pairs_perm _).mem_iff.mp
        (hgroups.pairs.mem_iff.mp (List.mem_map_of_mem hsite))
    obtain ⟨doc, entries, hdecl, hentry⟩ := decl?_group h.index hwritable htoken
    rw [hgroups.address _ hsite] at hentry
    exact ⟨index, doc, entries, h.unit?_index, hdecl, hentry⟩
  · intro user huser
    obtain ⟨u, hu, hmade⟩ := h.unit?_document huser
    obtain ⟨hn, _, hdecls⟩ :=
      documentUnit_eq_ok h.distinct h.linked huser (hw user huser) hmade
    refine ⟨u, hu, fun other hother ref type hp => ?_⟩
    rw [hasInPlace_iff hn hdecls hother ((hw user huser).defs other hother),
      refExpr_token h.distinct hw hsite hp]
  · intro ref base
    exact (Document.proper_address (hw document hm) hdef).parse_eq_ok_iff

namespace Batch

/-- The groups of a batch hold each of its tokens once, and wherever a compilation writes a token it
writes the address of its definition. -/
theorem compile_tokens {documents : List Document} {b : Batch}
    (hread : ∀ document ∈ documents, ∃ node, Document.ofNode node = .ok document)
    (hb : Batch.analyze (documents.map some) = .ok b) :
    b.tokens.Represents documents ∧
    ∀ skipGuards c, b.compile skipGuards false = .ok c →
      ∀ site ∈ tokenSites documents, c.Carries documents site.1 site.2 := by
  have hw := wellFormed_of_read hread
  have hid := identified_of_read hread
  obtain ⟨⟨hd, _⟩, _, htokens, _⟩ := analyze_eq_ok_iff.mp hb
  obtain ⟨hwritable, hg⟩ := (TokenGroups.build_eq_ok_iff hid).mp htokens
  constructor
  · rw [hg]
    exact represents_ofDocuments hd hid hw
  · intro skipGuards c hc site hsite
    obtain ⟨own, lexicons, index, hcompiled⟩ := Compiled.of_compile hid hb hc
    rw [hg] at hcompiled
    exact hcompiled.carries hw hwritable hsite

def reasonsNode : Node :=
  .record [
    ("lexicon", some (.scalar .int "1")),
    ("id", some (.text "com.example.reasons")),
    ("defs", some (.record [
      ("main", some (.record [("type", some (.text "token"))])),
      ("spam", some (.record [("type", some (.text "token"))])),
      ("report", some (.record [
        ("type", some (.text "object")),
        ("properties", some (.record [
          ("kind", some (.text "#spam")),
          ("causes", some (.list .text ["#main", "com.example.reasons#spam"]))]))]))]))]

def flagNode : Node :=
  .record [
    ("lexicon", some (.scalar .int "1")),
    ("id", some (.text "com.example.flag")),
    ("defs", some (.record [
      ("main", some (.record [
        ("type", some (.text "object")),
        ("properties", some (.record [
          ("reason", some (.text "com.example.reasons")),
          ("causes", some (.list .text
            ["com.example.reasons#main", "com.example.reasons#spam"]))]))]))]))]

def reasons : List Document :=
  [⟨⟨1, "com.example.reasons", none, "",
      [⟨"main", .token ""⟩, ⟨"spam", .token ""⟩,
        ⟨"report", .object ⟨"", [], [⟨"kind", .ref "" "#spam"⟩,
          ⟨"causes", .union "" ["#main", "com.example.reasons#spam"]⟩], false⟩⟩]⟩,
      "", [], ⟨["com", "example", "reasons"]⟩, reasonsNode⟩,
    ⟨⟨1, "com.example.flag", none, "",
      [⟨"main", .object ⟨"", [], [⟨"reason", .ref "" "com.example.reasons"⟩,
        ⟨"causes", .union "" ["com.example.reasons#main", "com.example.reasons#spam"]⟩],
          false⟩⟩]⟩,
      "", [], ⟨["com", "example", "flag"]⟩, flagNode⟩]

private theorem reasons_read :
    ∀ document ∈ reasons, ∃ node, Document.ofNode node = .ok document := by
  intro document hd
  simp only [reasons, List.mem_cons, List.not_mem_nil, or_false] at hd
  rcases hd with rfl | rfl
  · exact ⟨reasonsNode, rfl⟩
  · exact ⟨flagNode, rfl⟩

theorem compile_tokens_reasons :
    ∃ b c, Batch.analyze (reasons.map some) = .ok b ∧ b.compile false false = .ok c ∧
      b.tokens.pairs = [⟨"com.example", "reasons"⟩, ⟨"com.example", "reasons#spam"⟩] ∧
      b.tokens.Represents reasons ∧
      ∀ site ∈ tokenSites reasons, c.Carries reasons site.1 site.2 := by
  have hpairs : ((Batch.analyze (reasons.map some)).toOption.bind fun b =>
      (b.compile false false).toOption.map fun _ => b.tokens.pairs) =
        some [⟨"com.example", "reasons"⟩, ⟨"com.example", "reasons#spam"⟩] := by
    decide +kernel
  simp only [Option.bind_eq_some_iff, Option.map_eq_some_iff, Outcome.toOption_eq_some] at hpairs
  obtain ⟨b, hb, c, hc, htokens⟩ := hpairs
  obtain ⟨hgroups, hcarries⟩ := compile_tokens reasons_read hb
  exact ⟨b, c, hb, hc, htokens, hgroups, hcarries false c hc⟩

end Batch

end LexiconCompiler
