import LexiconCompiler.Proofs.Compilation.Names
import LexiconCompiler.Proofs.Definitions
import LexiconCompiler.Proofs.Emission.Guards

set_option autoImplicit false
set_option relaxedAutoImplicit false

/-!
The guards of a compilation. Each record and each object has a guard and a validator of its own; the
tags that the guard tests and the address that the validator passes on are addresses of it, so that
no two guards have a tag in common.
-/

namespace LexiconCompiler

open LexiconCompiler.Code LexiconCompiler.Emission LexiconCompiler.Markup LexiconCompiler.Text

namespace Code.Decl

/-- The tags that a function tests its argument for. -/
def testedTags (decl : Decl) : List String :=
  match decl.declared with
  | .function ⟨_, _, [.ret (.tagCheck _ tags)]⟩ => tags
  | _ => []

/-- The address under which a function has its argument validated. -/
def validatedAs? (decl : Decl) : Option String :=
  match decl.declared with
  | .function ⟨_, _, [.ret (.call (.member (.imported _ _) "validate") [.str address, _])]⟩ =>
    some address
  | _ => none

private theorem testedTags_of_not_isFunction {decl : Decl} (h : decl.isFunction = false) :
    decl.testedTags = [] := by
  rcases decl with ⟨name, doc, declared⟩
  cases declared with
  | function callable => cases h
  | _ => rfl

end Code.Decl

/-- A guard and a validator belong to a definition: they are named for its type, the guard tests for
tags under which the definition is found, and the validator passes on an address of it. -/
structure Registry.Guards (r : Registry) (document : Document) (definition : Definition)
    (pair : Decl × Decl) : Prop where
  guardName : pair.1.name = "is" ++ typeName definition.name definition.type.kind
  validateName : pair.2.name = "validate" ++ typeName definition.name definition.type.kind
  tested : pair.1.testedTags ≠ []
  tags : ∀ tag ∈ pair.1.testedTags, r.Finds document definition tag
  passed : ∃ address, pair.2.validatedAs? = some address ∧ r.Finds document definition address

/-- In the unit of each document there is one guard and one validator for each record and object,
and no other guard; other units have none. No two guards test for the same tag. -/
structure Compilation.Guards (c : Compilation) (r : Registry) (documents : List Document) :
    Prop where
  paired : ∀ document ∈ documents, ∃ u, c.unit? document.id = some u ∧
    (u.decls.map Decl.name).Nodup ∧ ∃ pairs : List (Decl × Decl),
      u.decls.filter Decl.isGuard = pairs.flatMap (fun pair => [pair.1, pair.2]) ∧
      List.Forall₂ (r.Guards document)
        (document.defs.filter fun definition => definition.type.isGuarded) pairs
  others : ∀ u ∈ c.units, (∀ document ∈ documents, u.name ≠ document.id) →
    u.decls.filter Decl.isGuard = []
  disjoint : ∀ u ∈ c.units, ∀ v ∈ c.units, ∀ guard ∈ u.decls, ∀ other ∈ v.decls,
    ∀ tag ∈ guard.testedTags, tag ∈ other.testedTags → u = v ∧ guard = other

private theorem parse_of_mem_tags {address : Address} (h : address.Proper) {tag : String}
    (ht : tag ∈ tags address) : Address.parse tag "" = .ok address := by
  rw [tags] at ht
  split at ht
  · simp only [List.mem_cons, List.not_mem_nil, or_false] at ht
    rcases ht with rfl | rfl
    · exact h.parse_full ""
    · exact h.parse_text ""
  · rw [List.mem_singleton.mp ht]
    exact h.parse_text ""

private theorem flatMap_guardDecls (s : Scope) (defs : List Definition) :
    defs.flatMap s.guardDecls =
      ((defs.filter fun definition => definition.type.isGuarded).map s.guardPair).flatMap
        fun pair => [pair.1, pair.2] := by
  induction defs with
  | nil => rfl
  | cons definition rest ih =>
    rw [List.flatMap_cons, ih, Scope.guardDecls]
    by_cases hg : definition.type.isGuarded = true
    · rw [List.filter_cons, if_pos hg, if_pos hg]
      rfl
    · rw [List.filter_cons, if_neg hg, if_neg hg, List.nil_append]

private theorem exists_of_mem_testedTags {s : Scope} {definition : Definition} {decl : Decl}
    (h : decl ∈ s.definitionDecls false definition) {tag : String} (ht : tag ∈ decl.testedTags) :
    decl = (s.guardPair definition).1 ∧ tag ∈ tags ⟨s.document, definition.name⟩ := by
  rw [Scope.definitionDecls_false, List.mem_append, Scope.guardDecls] at h
  rcases h with hbare | hguard
  · rw [Decl.testedTags_of_not_isFunction (isFunction_bareDecls hbare)] at ht
    cases ht
  · split at hguard
    · simp only [List.mem_cons, List.not_mem_nil, or_false] at hguard
      rcases hguard with rfl | rfl
      · exact ⟨rfl, ht⟩
      · cases ht
    · cases hguard

section Units

variable {u : SourceUnit}

private theorem isFunction_lexiconsUnit {registry : Registry} (h : lexiconsUnit registry = .ok u)
    {decl : Decl} (hd : decl ∈ u.decls) : decl.isFunction = false := by
  simp only [lexiconsUnit, Outcome.bind_eq_ok, Outcome.pure_eq_ok] at h
  obtain ⟨_, _, rfl⟩ := h
  simp only [List.mem_cons, List.not_mem_nil, or_false] at hd
  rcases hd with rfl | rfl | rfl | rfl <;> rfl

private theorem unguarded_indexUnit {tree : NamespaceTree} {tokens : TokenGroups}
    (h : indexUnit tree tokens = .ok u) {decl : Decl} (hd : decl ∈ u.decls) :
    decl.isGuard = false ∧ decl.testedTags = [] := by
  obtain ⟨_, _, hdecls⟩ := indexUnit_eq_ok h
  simp only [hdecls, indexDecls, List.mem_append, List.mem_cons, List.mem_map] at hd
  rcases hd with ⟨group, _, rfl⟩ | rfl | rfl | ⟨entry, _, rfl⟩
  · exact ⟨rfl, rfl⟩
  · exact ⟨by decide, rfl⟩
  · exact ⟨rfl, rfl⟩
  · exact ⟨rfl, rfl⟩

end Units

section Definitions

variable {documents : List Document} (hd : DistinctIds documents)
  (hw : ∀ document ∈ documents, document.toDraft.WellFormed)
  {document : Document} (hm : document ∈ documents)
include hd hw hm

private theorem guards_of_mem {definition : Definition} (hdef : definition ∈ document.defs) :
    (Registry.mk documents).Guards document definition
      (Scope.guardPair ⟨⟨documents⟩, document.id⟩ definition) := by
  have hproper := Document.proper_address (hw document hm) hdef
  constructor
  · rfl
  · rfl
  · change tags (document.address definition) ≠ []
    rw [tags]
    split <;> simp
  · intro tag ht
    exact finds_of_parse hd hw hm hdef (parse_of_mem_tags hproper ht)
  · exact ⟨_, rfl, finds_of_parse hd hw hm hdef (hproper.parse_full "")⟩

/-- The guards of a document come in pairs, one for each record and object in order. -/
private theorem guards_documentDecls :
    ∃ pairs : List (Decl × Decl),
      (document.defs.flatMap (Scope.definitionDecls ⟨⟨documents⟩, document.id⟩ false)).filter
        Decl.isGuard = pairs.flatMap (fun pair => [pair.1, pair.2]) ∧
      List.Forall₂ ((Registry.mk documents).Guards document)
        (document.defs.filter fun definition => definition.type.isGuarded) pairs := by
  let s : Scope := ⟨⟨documents⟩, document.id⟩
  let guarded := document.defs.filter fun definition => definition.type.isGuarded
  refine ⟨guarded.map s.guardPair, ?_, ?_⟩
  · rw [← flatMap_guardDecls, List.filter_flatMap]
    exact List.flatMap_congr fun definition _ => filter_isGuard s definition
  · rw [List.forall₂_map_right_iff, List.forall₂_same]
    intro definition hg
    exact guards_of_mem hd hw hm (List.mem_of_mem_filter hg)

end Definitions

namespace Compiled

variable {documents : List Document} {tree : NamespaceTree} {tokens : TokenGroups}
  {c : Compilation} {own : List SourceUnit} {lexicons index : SourceUnit}

private theorem guard_of_testedTags (h : Compiled documents false tree tokens c own lexicons index)
    (hw : ∀ document ∈ documents, document.toDraft.WellFormed) {u : SourceUnit} (hu : u ∈ c.units)
    {decl : Decl} (hdecl : decl ∈ u.decls) {tag : String} (ht : tag ∈ decl.testedTags) :
    ∃ document ∈ documents, ∃ definition ∈ document.defs,
      documentUnit ⟨documents⟩ false document = .ok u ∧
      decl = (Scope.guardPair ⟨⟨documents⟩, document.id⟩ definition).1 ∧
      Address.parse tag "" = .ok (document.address definition) := by
  simp only [h.units, List.mem_append, List.mem_cons, List.not_mem_nil, or_false] at hu
  rcases hu with hown | rfl | rfl
  · obtain ⟨document, hm, hmade, _⟩ := h.own_name hown
    obtain ⟨_, _, hdecls⟩ := documentUnit_eq_ok h.distinct h.linked hm (hw document hm) hmade
    rw [hdecls] at hdecl
    obtain ⟨definition, hdef, hdecl⟩ := List.mem_flatMap.mp hdecl
    obtain ⟨hguard, htag⟩ := exists_of_mem_testedTags hdecl ht
    have hproper := Document.proper_address (hw document hm) hdef
    exact ⟨document, hm, definition, hdef, hmade, hguard, parse_of_mem_tags hproper htag⟩
  · rw [Decl.testedTags_of_not_isFunction (isFunction_lexiconsUnit h.lexicons hdecl)] at ht
    cases ht
  · rw [(unguarded_indexUnit h.index hdecl).2] at ht
    cases ht

end Compiled

namespace Batch

/-- Each record and each object of a batch has one guard and one validator, which lead to it and to
nothing else. -/
theorem compile_guards {documents : List Document} {b : Batch} {c : Compilation}
    (hread : ∀ document ∈ documents, ∃ node, Document.ofNode node = .ok document)
    (hb : Batch.analyze (documents.map some) = .ok b) (hc : b.compile false false = .ok c) :
    c.Guards b.registry documents := by
  have hw := wellFormed_of_read hread
  obtain ⟨⟨hd, hl⟩, _, _, hregistry, _⟩ := analyze_eq_ok_iff.mp hb
  obtain ⟨own, lexicons, index, h⟩ := Compiled.of_compile (identified_of_read hread) hb hc
  constructor
  · intro document hm
    obtain ⟨u, hu, hmade⟩ := h.unit?_document hm
    obtain ⟨hn, _, hdecls⟩ := documentUnit_eq_ok hd hl hm (hw document hm) hmade
    have hpairs := guards_documentDecls hd hw hm
    rw [← hdecls] at hpairs
    rw [hregistry]
    exact ⟨u, hu, hn, hpairs⟩
  · intro u hu hother
    simp only [h.units, List.mem_append, List.mem_cons, List.not_mem_nil, or_false] at hu
    refine List.filter_eq_nil_iff.mpr fun decl hdecl => ?_
    rcases hu with hown | rfl | rfl
    · obtain ⟨document, hm, _, hname⟩ := h.own_name hown
      exact absurd hname (hother document hm)
    · simp [Decl.isGuard, isFunction_lexiconsUnit h.lexicons hdecl]
    · simp [(unguarded_indexUnit h.index hdecl).1]
  · intro u hu v hv guard hguard other hother tag ht ht'
    obtain ⟨document, hm, definition, hdef, hmade, rfl, hp⟩ :=
      h.guard_of_testedTags hw hu hguard ht
    obtain ⟨document', hm', definition', hdef', hmade', rfl, hp'⟩ :=
      h.guard_of_testedTags hw hv hother ht'
    have hsame := Except.ok.inj (hp.symm.trans hp')
    obtain ⟨rfl, rfl⟩ := eq_of_address_eq hd hw hm hdef hm' hdef' hsame
    exact ⟨Except.ok.inj (hmade.symm.trans hmade'), rfl⟩

theorem compile_guards_likes :
    ∃ b c, Batch.analyze (likes.map some) = .ok b ∧ b.compile false false = .ok c ∧
      (c.units.map fun u => u.decls.flatMap Decl.testedTags) =
        [["com.example.getLikes#view"], [], [], []] ∧
      c.Guards b.registry likes := by
  have htags : ((Batch.analyze (likes.map some)).toOption.bind fun b =>
      (b.compile false false).toOption.map fun c =>
        c.units.map fun u => u.decls.flatMap Decl.testedTags) =
          some [["com.example.getLikes#view"], [], [], []] := by
    decide +kernel
  simp only [Option.bind_eq_some_iff, Option.map_eq_some_iff, Outcome.toOption_eq_some] at htags
  obtain ⟨b, hb, c, hc, hunits⟩ := htags
  exact ⟨b, c, hb, hc, hunits, compile_guards likes_read hb hc⟩

end Batch

end LexiconCompiler
