import LexiconCompiler.Proofs.Compilation.Dependencies
import LexiconCompiler.Proofs.Emission.Guards

set_option autoImplicit false
set_option relaxedAutoImplicit false

/-!
Compilation without guards. It fails where compilation with guards does, for the same reason, and
otherwise gives the same units but for the guards of documents and their need of the schemas.
-/

namespace LexiconCompiler

open LexiconCompiler.Code LexiconCompiler.Emission LexiconCompiler.Text

/-- The unit of a document without its guards and without the need of the schemas, which only its
guards have. Other units have no guards. -/
def Code.SourceUnit.withoutGuards (u : SourceUnit) : SourceUnit :=
  match u.kind with
  | .document =>
    { u with
      deps := u.deps.filter fun name => name != lexiconsName
      decls := u.decls.filter fun decl => !decl.isGuard }
  | .lexicons | .index => u

def Compilation.withoutGuards (c : Compilation) : Compilation :=
  { c with units := c.units.map SourceUnit.withoutGuards }

section Needs

variable {s : Scope}

private theorem lexiconsName_notMem_refNeeds (ref : String) : lexiconsName ∉ s.refNeeds ref := by
  intro hm
  unfold Scope.refNeeds at hm
  split at hm
  · cases hm
  · rename_i address target htarget
    split at hm
    · cases hm
    · have hvalid := (Address.parse_eq_ok (Scope.parse_of_target htarget)).nsid
      rw [← List.mem_singleton.mp hm] at hvalid
      exact absurd hvalid (by decide)

private theorem filter_definitionNeeds (definition : Definition) :
    (s.definitionNeeds false definition).filter (fun name => name != lexiconsName) =
      s.definitionNeeds true definition := by
  have hrefs : ∀ name ∈ s.needs (definition.type.carried.visits
      (joinPath "defs" definition.name)), (name != lexiconsName) = true := by
    intro name hn
    obtain ⟨visit, _, hn⟩ := List.mem_flatMap.mp hn
    obtain ⟨site, _, hn⟩ := List.mem_flatMap.mp hn
    have hne : name ≠ lexiconsName := fun he => lexiconsName_notMem_refNeeds site.ref (he ▸ hn)
    simpa using hne
  rw [Scope.definitionNeeds, Scope.definitionNeeds, List.filter_append,
    List.filter_eq_self.mpr hrefs]
  cases definition.type.isGuarded <;> simp

end Needs

section Kinds

variable {registry : Registry} {u : SourceUnit}

private theorem kind_documentUnit {skipGuards : Bool} {document : Document}
    (h : documentUnit registry skipGuards document = .ok u) : u.kind = .document := by
  obtain ⟨_, rfl, _⟩ := documentUnit_leaves h
  exact SourceUnit.kind_extend ..

private theorem kind_lexiconsUnit (h : lexiconsUnit registry = .ok u) : u.kind = .lexicons := by
  simp only [lexiconsUnit, Outcome.bind_eq_ok, Outcome.pure_eq_ok] at h
  obtain ⟨_, _, rfl⟩ := h
  rfl

private theorem kind_indexUnit {tree : NamespaceTree} {tokens : TokenGroups}
    (h : indexUnit tree tokens = .ok u) : u.kind = .index := by
  obtain ⟨_, hgrow, hyields⟩ := indexUnit_yields tree tokens
  obtain ⟨_, rfl⟩ := hyields.grow_eq_ok (hgrow ▸ h)
  exact SourceUnit.kind_extend ..

private theorem withoutGuards_eq_self (h : u.kind ≠ .document) : u.withoutGuards = u := by
  unfold SourceUnit.withoutGuards
  cases hk : u.kind <;> simp_all

private theorem map_withoutGuards {tree : NamespaceTree} {tokens : TokenGroups}
    {lexicons index : SourceUnit} (hlexicons : lexiconsUnit registry = .ok lexicons)
    (hindex : indexUnit tree tokens = .ok index) (own : List SourceUnit) :
    (own ++ [lexicons, index]).map SourceUnit.withoutGuards =
      own.map SourceUnit.withoutGuards ++ [lexicons, index] := by
  rw [List.map_append, List.map_cons, List.map_singleton,
    withoutGuards_eq_self (by simp [kind_lexiconsUnit hlexicons]),
    withoutGuards_eq_self (by simp [kind_indexUnit hindex])]

end Kinds

section Documents

variable {documents : List Document} (hd : DistinctIds documents) (hl : Linked documents)
  {document : Document} (hm : document ∈ documents) (hw : document.toDraft.WellFormed)
include hd hl hm hw

private theorem withoutGuards_documentUnit {u v : SourceUnit}
    (hu : documentUnit ⟨documents⟩ false document = .ok u)
    (hv : documentUnit ⟨documents⟩ true document = .ok v) : v = u.withoutGuards := by
  obtain ⟨_, hname, hdecls⟩ := documentUnit_eq_ok hd hl hm hw hu
  obtain ⟨_, hname', hdecls'⟩ := documentUnit_eq_ok hd hl hm hw hv
  obtain ⟨_, _, hdeps⟩ := documentUnit_deps hu
  obtain ⟨_, _, hdeps'⟩ := documentUnit_deps hv
  have hsame : v.isOther = u.isOther := by
    funext name
    rw [SourceUnit.isOther, SourceUnit.isOther, hname, hname']
  let s : Scope := ⟨⟨documents⟩, document.id⟩
  have hrefs : (document.defs.flatMap (s.definitionNeeds false)).filter
      (fun name => name != lexiconsName) = document.defs.flatMap (s.definitionNeeds true) := by
    rw [List.filter_flatMap]
    exact List.flatMap_congr fun definition _ => filter_definitionNeeds definition
  have hneeds : v.deps = u.deps.filter fun name => name != lexiconsName := by
    rw [hdeps, hdeps', SourceUnit.othersIn, SourceUnit.othersIn, filter_distinct,
      List.filter_comm, hrefs, hsame]
  have hothers : v.decls = u.decls.filter fun decl => !decl.isGuard := by
    rw [hdecls, hdecls', List.filter_flatMap]
    exact List.flatMap_congr fun definition _ => (filter_not_isGuard s definition).symm
  rw [SourceUnit.withoutGuards, kind_documentUnit hu, ← hneeds, ← hothers,
    hname.trans hname'.symm]
  have hkind := kind_documentUnit hv
  rcases v with ⟨name, kind, deps, decls⟩
  obtain rfl : kind = .document := hkind
  rfl

private theorem documentUnit_true :
    documentUnit ⟨documents⟩ true document =
      (documentUnit ⟨documents⟩ false document).map SourceUnit.withoutGuards := by
  have hyields (skipGuards : Bool) :=
    declareAll_yields hw.defs (resolvesIn_of_linked hd hl hm) skipGuards
  have hrepeated := repeated?_definitionDecls (s := ⟨⟨documents⟩, document.id⟩) hw.defs
  cases hr : repeated? [] ((document.defs.flatMap
      (Scope.definitionDecls ⟨⟨documents⟩, document.id⟩ false)).map Decl.name) with
  | some name =>
    have hfails := (hyields false).grow_of_repeated hr document.id .document
    have hfails' := (hyields true).grow_of_repeated (hrepeated ▸ hr) document.id .document
    rw [documentUnit, documentUnit, hfails, hfails']
    rfl
  | none =>
    have hgrows := (hyields false).grow_of_nodup (repeated?_eq_none.mp hr).1 document.id .document
    have hgrows' := (hyields true).grow_of_nodup (repeated?_eq_none.mp (hrepeated ▸ hr)).1
      document.id .document
    have hsame := withoutGuards_documentUnit hd hl hm hw hgrows hgrows'
    rw [documentUnit, documentUnit, hgrows, hgrows', hsame]
    rfl

end Documents

namespace Batch

private theorem documentUnits_true {documents : List Document} {b : Batch}
    (hread : ∀ document ∈ documents, ∃ node, Document.ofNode node = .ok document)
    (hb : Batch.analyze (documents.map some) = .ok b) :
    b.documentUnits true = (b.documentUnits false).map (List.map SourceUnit.withoutGuards) := by
  obtain ⟨⟨hd, hl⟩, _, _, hregistry, _⟩ := analyze_eq_ok_iff.mp hb
  rw [documentUnits, documentUnits, hregistry]
  exact Outcome.mapM_map fun document hm =>
    documentUnit_true hd hl hm (wellFormed_of_read hread document hm)

/-- Leaving guards out is taking them away: compilation fails for the same reason, or gives the same
units without guards. Only the units of documents are changed by that. -/
theorem compile_skipGuards {documents : List Document} {b : Batch}
    (hread : ∀ document ∈ documents, ∃ node, Document.ofNode node = .ok document)
    (hb : Batch.analyze (documents.map some) = .ok b) :
    b.compile true false = (b.compile false false).map Compilation.withoutGuards ∧
    ∀ c, b.compile false false = .ok c → ∃ own lexicons index,
      c.units = own ++ [lexicons, index] ∧
      own.map SourceUnit.name = documents.map (fun document => document.id) ∧
      lexicons.name = lexiconsName ∧ index.name = indexName ∧
      c.withoutGuards.units = own.map SourceUnit.withoutGuards ++ [lexicons, index] ∧
      ∀ u ∈ own, u.kind = .document := by
  constructor
  · rw [compile, compile, documentUnits_true hread hb]
    unfold aggregate
    cases b.documentUnits false with
    | error problem => rfl
    | ok own =>
      cases hlexicons : lexiconsUnit b.registry with
      | error failure => rfl
      | ok lexicons =>
        cases hindex : indexUnit b.tree b.tokens with
        | error problem => rfl
        | ok index =>
          have hunits := map_withoutGuards hlexicons hindex own
          refine congrArg Except.ok ?_
          change Compilation.mk _ _ _ = Compilation.mk _ _ _
          rw [hunits, List.length_append, List.length_map, List.length_append]
  · intro c hc
    obtain ⟨own, lexicons, index, hcompiled⟩ :=
      Compiled.of_compile (identified_of_read hread) hb hc
    refine ⟨own, lexicons, index, hcompiled.units, hcompiled.own_names,
      (lexiconsUnit_bound hcompiled.lexicons).1, (indexUnit_eq_ok hcompiled.index).2.1, ?_,
      fun u hu => ?_⟩
    · rw [Compilation.withoutGuards, hcompiled.units]
      exact map_withoutGuards hcompiled.lexicons hcompiled.index own
    · obtain ⟨document, _, hmade, _⟩ := hcompiled.own_name hu
      exact kind_documentUnit hmade

theorem compile_skipGuards_likes :
    ∃ b c, Batch.analyze (likes.map some) = .ok b ∧ b.compile false false = .ok c ∧
      (c.units.map fun u => (u.decls.filter Decl.isGuard).map Decl.name) =
        [["isView", "validateView"], [], [], []] ∧
      b.compile true false = .ok c.withoutGuards ∧
      ∃ own lexicons index, c.units = own ++ [lexicons, index] ∧
        own.map SourceUnit.name = likes.map (fun document => document.id) ∧
        lexicons.name = lexiconsName ∧ index.name = indexName ∧
        c.withoutGuards.units = own.map SourceUnit.withoutGuards ++ [lexicons, index] ∧
        ∀ u ∈ own, u.kind = .document := by
  have hguards : ((Batch.analyze (likes.map some)).toOption.bind fun b =>
      (b.compile false false).toOption.map fun c =>
        c.units.map fun u => (u.decls.filter Decl.isGuard).map Decl.name) =
          some [["isView", "validateView"], [], [], []] := by
    decide +kernel
  simp only [Option.bind_eq_some_iff, Option.map_eq_some_iff, Outcome.toOption_eq_some] at hguards
  obtain ⟨b, hb, c, hc, hunits⟩ := hguards
  obtain ⟨herased, hparts⟩ := compile_skipGuards likes_read hb
  rw [hc] at herased
  exact ⟨b, c, hb, hc, hunits, herased, hparts c hc⟩

end Batch

end LexiconCompiler
