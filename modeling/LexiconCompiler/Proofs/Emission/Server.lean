import LexiconCompiler.Emission.IndexUnit
import LexiconCompiler.Proofs.Emission.Declaring
import LexiconCompiler.Proofs.Namespace.Forest

set_option autoImplicit false
set_option relaxedAutoImplicit false

/-!
The declarations of the unit of the server, in order: the constants of the groups, the entry point,
the server, and the classes of the namespaces as the walk meets them. Fields lead from the server to
the class of every namespace, and the methods of the classes are those of the documents.
-/

namespace LexiconCompiler

namespace Code.SourceUnit

/-- The methods of the classes of a unit, each with its class. -/
def classMethods (u : SourceUnit) : List (String × ClassMethod) :=
  u.decls.flatMap fun decl =>
    match decl.declared with
    | .cls _ _ methods => methods.map fun method => (decl.name, method)
    | _ => []

def HasClass (u : SourceUnit) (name : String) (fields : List (FieldSpec TypeExpr))
    (constructor? : Option Callable) (methods : List ClassMethod) : Prop :=
  ∃ doc, u.decl? name = some ⟨name, doc, .cls fields constructor? methods⟩

theorem decl?_of_mem {u : SourceUnit} (hn : (u.decls.map Decl.name).Nodup) {decl : Decl}
    (h : decl ∈ u.decls) : u.decl? decl.name = some decl := by
  refine Text.find?_eq_some_of_unique h (beq_self_eq_true _) fun other ho hname => ?_
  exact List.inj_on_of_nodup_map hn ho h (eq_of_beq hname)

end Code.SourceUnit

namespace Emission

open LexiconCompiler.Code LexiconCompiler.Text

def indexDecls (tree : NamespaceTree) (tokens : TokenGroups) : List Decl :=
  tokens.groups.map (groupDecl tokens) ++
    createServerDecl :: serverDecl tree :: tree.walk.map fun entry => namespaceDecl tree entry.1

theorem names_indexDecls (tree : NamespaceTree) (tokens : TokenGroups) :
    (indexDecls tree tokens).map Decl.name =
      tokens.groups.map Casing.screaming ++ "createServer" :: "Server" ::
        (tree.walk.map Prod.fst).map fun n => className n.path := by
  simp [indexDecls, groupDecl, createServerDecl, serverDecl, namespaceDecl, Function.comp_def]

theorem nodup_classNames {tree : NamespaceTree} {tokens : TokenGroups}
    (h : ((indexDecls tree tokens).map Decl.name).Nodup) :
    ((tree.walk.map Prod.fst).map fun n => className n.path).Nodup := by
  rw [names_indexDecls] at h
  exact (h.sublist (List.sublist_append_right _ _)).of_cons.of_cons

section Mentions

@[simp] theorem mentions_groupDecl (tokens : TokenGroups) (group : String) :
    (groupDecl tokens group).mentions = [] := by
  simp [groupDecl, Decl.mentions, Declared.mentions, Expr.mentions, entryMentions_eq]

@[simp] theorem mentions_createServerDecl :
    createServerDecl.mentions = [.library .serverOptions] := rfl

private theorem mentions_childFields (children : List Namespace) :
    fieldMentions (children.map childField) = [] := by
  simp [fieldMentions_eq, childField, FieldSpec.plain, TypeExpr.here, TypeExpr.mentions]

private theorem mentions_childAssigns (server : Expr) (h : server.mentions = [])
    (children : List Namespace) :
    (children.map (childAssign server)).flatMap Stmt.mentions = [] := by
  simp [childAssign, Stmt.mentions, Expr.ofThis, Expr.mentions, argMentions, h]

@[simp] theorem mentions_serverDecl (tree : NamespaceTree) :
    (serverDecl tree).mentions = [.library .server, .library .serverOptions,
      .library .createServer, .value lexiconsName "schemas"] := by
  have hassigns := mentions_childAssigns .this rfl tree.roots
  simp [serverDecl, Decl.mentions, Declared.mentions, Callable.mentions, fieldMentions,
    mentions_childFields, FieldSpec.plain, TypeExpr.mentions, paramMentions, serverOptions,
    hassigns, Stmt.mentions, Expr.ofThis, Expr.mentions, argMentions]

@[simp] theorem mentions_namespaceDecl (tree : NamespaceTree) (n : Namespace) :
    (namespaceDecl tree n).mentions = n.methods.map fun method => .type method.text "Handler" := by
  have hassigns := mentions_childAssigns (.ident "server") rfl (tree.childrenOf n.segments)
  have hmethods : (n.methods.map registration).flatMap (fun method => method.callable.mentions) =
      n.methods.map fun method => .type method.text "Handler" := by
    rw [List.flatMap_map, List.map_eq_flatMap]
    rfl
  simp only [namespaceDecl, Decl.mentions, Declared.mentions, hmethods]
  simp [Callable.mentions, fieldMentions, mentions_childFields, FieldSpec.plain, Param.plain,
    TypeExpr.here, TypeExpr.mentions, paramMentions, hassigns, Stmt.mentions, Expr.ofThis,
    Expr.mentions]

theorem mem_mentions_indexDecls {tree : NamespaceTree} {tokens : TokenGroups} {m : Mention}
    (h : m ∈ (indexDecls tree tokens).flatMap Decl.mentions) :
    (∃ handle, m = .library handle) ∨ m = .value lexiconsName "schemas" ∨
      ∃ entry ∈ tree.walk, ∃ method ∈ entry.1.methods, m = .type method.text "Handler" := by
  obtain ⟨decl, hd, hm⟩ := List.mem_flatMap.mp h
  simp only [indexDecls, List.mem_append, List.mem_cons, List.mem_map] at hd
  rcases hd with ⟨group, _, rfl⟩ | rfl | rfl | ⟨entry, he, rfl⟩
  · simp at hm
  · exact Or.inl ⟨_, List.mem_singleton.mp hm⟩
  · simp only [mentions_serverDecl, List.mem_cons, List.not_mem_nil, or_false] at hm
    rcases hm with rfl | rfl | rfl | rfl
    · exact Or.inl ⟨_, rfl⟩
    · exact Or.inl ⟨_, rfl⟩
    · exact Or.inl ⟨_, rfl⟩
    · exact Or.inr (Or.inl rfl)
  · rw [mentions_namespaceDecl] at hm
    obtain ⟨method, hmethod, rfl⟩ := List.mem_map.mp hm
    exact Or.inr (Or.inr ⟨entry, he, method, hmethod, rfl⟩)

end Mentions

private theorem declareNamespace_yields (tree : NamespaceTree) (n : Namespace) :
    Yields (declareNamespace tree n) ⟨⟩ (unitsOf (namespaceDecl tree n).mentions)
      [namespaceDecl tree n] := by
  have hdepends : Yields (n.methods.forM fun method => depend method.text) ⟨⟩
      (n.methods.flatMap fun method => [method.text]) (n.methods.flatMap fun _ => []) :=
    yields_forM fun method _ => yields_depend method.text
  have hunits : unitsOf (namespaceDecl tree n).mentions =
      (n.methods.flatMap fun method => [method.text]) ++ [] := by
    rw [mentions_namespaceDecl, unitsOf, List.filterMap_map, List.append_nil,
      ← List.map_eq_flatMap]
    exact congrFun List.filterMap_eq_map n.methods
  have hnone : (n.methods.flatMap fun _ => ([] : List Decl)) = [] := by simp
  rw [hnone] at hdepends
  rw [hunits]
  exact hdepends.bind (yields_declare _)

theorem indexUnit_yields (tree : NamespaceTree) (tokens : TokenGroups) :
    ∃ emission, indexUnit tree tokens = grow indexName .index emission ∧
      Yields emission ⟨⟩ (unitsOf ((indexDecls tree tokens).flatMap Decl.mentions))
        (indexDecls tree tokens) := by
  have hgroups : Yields (tokens.groups.forM fun group => declare (groupDecl tokens group)) ⟨⟩
      (tokens.groups.flatMap fun _ => [])
      (tokens.groups.flatMap fun group => [groupDecl tokens group]) :=
    yields_forM fun group _ => yields_declare _
  have hclasses : Yields (tree.walk.forM fun entry => declareNamespace tree entry.1) ⟨⟩
      (tree.walk.flatMap fun entry => unitsOf (namespaceDecl tree entry.1).mentions)
      (tree.walk.flatMap fun entry => [namespaceDecl tree entry.1]) :=
    yields_forM fun entry _ => declareNamespace_yields tree entry.1
  have hunits : unitsOf ((indexDecls tree tokens).flatMap Decl.mentions) =
      (tokens.groups.flatMap fun _ => []) ++ lexiconsName ::
        tree.walk.flatMap fun entry => unitsOf (namespaceDecl tree entry.1).mentions := by
    simp [indexDecls, unitsOf_flatMap, List.flatMap_map]
  refine ⟨_, rfl, ?_⟩
  rw [hunits, indexDecls, List.map_eq_flatMap, List.map_eq_flatMap]
  exact hgroups.bind ((yields_declare _).bind ((yields_depend _).bind
    ((yields_declare _).bind hclasses)))

section Units

variable {tree : NamespaceTree} {tokens : TokenGroups}

theorem indexUnit_isOk_iff :
    (∃ v, indexUnit tree tokens = .ok v) ↔ ((indexDecls tree tokens).map Decl.name).Nodup := by
  obtain ⟨emission, hgrow, hyields⟩ := indexUnit_yields tree tokens
  rw [hgrow]
  constructor
  · rintro ⟨v, hv⟩
    exact (hyields.grow_eq_ok hv).1
  · intro hn
    exact ⟨_, hyields.grow_of_nodup hn indexName .index⟩

theorem indexUnit_eq_ok {v : SourceUnit} (h : indexUnit tree tokens = .ok v) :
    ((indexDecls tree tokens).map Decl.name).Nodup ∧ v.name = indexName ∧
      v.decls = indexDecls tree tokens := by
  obtain ⟨emission, hgrow, hyields⟩ := indexUnit_yields tree tokens
  obtain ⟨hn, rfl⟩ := hyields.grow_eq_ok (hgrow ▸ h)
  exact ⟨hn, SourceUnit.name_extend .., rfl⟩

theorem indexUnit_exact {v : SourceUnit} (h : indexUnit tree tokens = .ok v) : v.Exact := by
  obtain ⟨emission, hgrow, hyields⟩ := indexUnit_yields tree tokens
  obtain ⟨_, rfl⟩ := hyields.grow_eq_ok (hgrow ▸ h)
  exact SourceUnit.exact_extend _ _ _

theorem indexUnit_eq_error {problem : Problem} (h : indexUnit tree tokens = .error problem) :
    ∃ repeated, problem = .repeatedName indexName repeated := by
  obtain ⟨emission, hgrow, hyields⟩ := indexUnit_yields tree tokens
  exact hyields.grow_eq_error (hgrow ▸ h)

end Units

/-- Fields lead from the server to the class of a namespace: one for each segment, named for the
segment, whose type is the class of the segments so far. -/
inductive Reached (u : SourceUnit) : List String -> String -> Prop
  | server : Reached u [] "Server"
  | field {path : List String} {segment name : String} {fields : List (FieldSpec TypeExpr)}
      {constructor? : Option Callable} {methods : List ClassMethod} : Reached u path name →
      u.HasClass name fields constructor? methods →
      .plain (Casing.camel segment)
        (.here (className (joinWith "." (path ++ [segment])))) ∈ fields →
      Reached u (path ++ [segment]) (className (joinWith "." (path ++ [segment])))

/-- A body assigns the fields of a class one by one. -/
def Assigns (fields : List (FieldSpec TypeExpr)) (body : List Stmt) : Prop :=
  List.Forall₂ (fun field stmt => ∃ value, stmt = .assign (.ofThis field.name) value) fields body

private theorem assigns_children (server : Expr) (children : List Namespace) :
    Assigns (children.map childField) (children.map (childAssign server)) := by
  induction children with
  | nil => exact .nil
  | cons child rest ih => exact .cons ⟨_, rfl⟩ ih

section Classes

variable {tree : NamespaceTree} {tokens : TokenGroups} {u : SourceUnit}

theorem serverDecl_mem : serverDecl tree ∈ indexDecls tree tokens := by
  simp [indexDecls]

theorem namespaceDecl_mem {n : Namespace} {d : Nat} (h : (n, d) ∈ tree.walk) :
    namespaceDecl tree n ∈ indexDecls tree tokens := by
  have hclass := List.mem_map_of_mem h (f := fun entry => namespaceDecl tree entry.1)
  exact List.mem_append_right _ (List.mem_cons_of_mem _ (List.mem_cons_of_mem _ hclass))

private theorem hasClass_server (hn : (u.decls.map Decl.name).Nodup)
    (hu : u.decls = indexDecls tree tokens) :
    ∃ constructor? methods, u.HasClass "Server"
      (.plain "xrpc" (.runtime .server) :: tree.roots.map childField) constructor? methods := by
  have hname : (serverDecl tree).name = "Server" := rfl
  have hfound := SourceUnit.decl?_of_mem hn (hu ▸ serverDecl_mem)
  rw [hname] at hfound
  exact ⟨_, _, _, hfound⟩

theorem hasClass_namespace (hn : (u.decls.map Decl.name).Nodup)
    (hu : u.decls = indexDecls tree tokens) {n : Namespace} {d : Nat} (h : (n, d) ∈ tree.walk) :
    ∃ constructor?, u.HasClass (className n.path)
      (.plain "_server" (.here "Server") :: (tree.childrenOf n.segments).map childField)
      constructor? (n.methods.map registration) := by
  have hname : (namespaceDecl tree n).name = className n.path := rfl
  have hfound := SourceUnit.decl?_of_mem hn (hu ▸ namespaceDecl_mem h)
  rw [hname] at hfound
  exact ⟨_, _, hfound⟩

/-- Fields lead from the server to the class of every namespace. -/
theorem reached_namespace {documents : List Document} (hn : (u.decls.map Decl.name).Nodup)
    (hu : u.decls = indexDecls tree tokens) (ht : tree.Sound documents) (hclosed : tree.Closed)
    {n : Namespace} (hmem : n ∈ tree.namespaces) : Reached u n.segments (className n.path) := by
  induction hlength : n.segments.length generalizing n with
  | zero => exact absurd (List.length_eq_zero_iff.mp hlength) (ht.segments n hmem)
  | succ k ih =>
    have hsegments := NamespaceTree.parent_append_segment (ht.segments n hmem)
    have hfield : childField n = .plain (Casing.camel n.segment)
        (.here (className (joinWith "." (n.parent ++ [n.segment])))) := by
      rw [hsegments]
      rfl
    rw [Namespace.path, ← hsegments]
    -- An outermost namespace is a field of the server, any other one of the class around it.
    by_cases hroot : n.parent = []
    · obtain ⟨_, _, hclass⟩ := hasClass_server hn hu
      have hchild : n ∈ tree.roots := NamespaceTree.mem_childrenOf.mpr ⟨hmem, hroot⟩
      rw [hroot] at hfield ⊢
      refine .field .server hclass (List.mem_cons_of_mem _ ?_)
      exact hfield ▸ List.mem_map_of_mem hchild
    · obtain ⟨m, hm, hparent⟩ := hclosed n hmem hroot
      have hshorter : m.segments.length = k := by
        rw [hparent, Namespace.parent, List.length_dropLast]
        omega
      have hreached := ih hm hshorter
      obtain ⟨d, hd⟩ := NamespaceTree.mem_walk_of_mem_namespaces ht hclosed hm
      obtain ⟨_, hclass⟩ := hasClass_namespace hn hu hd
      have hchild : n ∈ tree.childrenOf m.segments :=
        NamespaceTree.mem_childrenOf.mpr ⟨hmem, hparent.symm⟩
      rw [hparent] at hreached
      refine .field hreached hclass (List.mem_cons_of_mem _ ?_)
      exact hfield ▸ List.mem_map_of_mem hchild

theorem classMethods_eq (hu : u.decls = indexDecls tree tokens) :
    u.classMethods = (tree.walk.map Prod.fst).flatMap fun n =>
      n.methods.map fun method => (className n.path, registration method) := by
  have hgroups : ((tokens.groups.map (groupDecl tokens)).flatMap fun decl =>
      match decl.declared with
      | .cls _ _ methods => methods.map fun method => (decl.name, method)
      | _ => ([] : List (String × ClassMethod))) = [] := by
    simp [groupDecl]
  rw [SourceUnit.classMethods, hu, indexDecls, List.flatMap_append, hgroups]
  simp [createServerDecl, serverDecl, namespaceDecl, List.flatMap_map, Function.comp_def]

theorem constructor_of_cls (hn : (u.decls.map Decl.name).Nodup)
    (hu : u.decls = indexDecls tree tokens) {decl : Decl} (hd : decl ∈ u.decls)
    {fields : List (FieldSpec TypeExpr)} {constructor? : Option Callable}
    {methods : List ClassMethod} (hc : decl.declared = .cls fields constructor? methods) :
    ∃ callable, constructor? = some callable ∧ Assigns fields callable.body ∧
      fields.head?.map FieldSpec.name =
        some (if decl.name = "Server" then "xrpc" else "_server") := by
  have hserver : serverDecl tree ∈ u.decls := hu ▸ serverDecl_mem
  rw [hu, indexDecls, List.mem_append, List.mem_cons, List.mem_cons] at hd
  rcases hd with hgroup | rfl | rfl | hclass
  · obtain ⟨group, _, rfl⟩ := List.mem_map.mp hgroup
    cases hc
  · cases hc
  · cases hc
    exact ⟨_, rfl, .cons ⟨_, rfl⟩ (assigns_children _ _), rfl⟩
  · obtain ⟨⟨n, d⟩, hwalk, rfl⟩ := List.mem_map.mp hclass
    have hmem : namespaceDecl tree n ∈ u.decls := hu ▸ namespaceDecl_mem hwalk
    -- Names of a unit differ, so a namespace of this name would be the server itself.
    have hname : ¬ (namespaceDecl tree n).name = "Server" := by
      intro hsame
      have heq : namespaceDecl tree n = serverDecl tree :=
        List.inj_on_of_nodup_map hn hmem hserver hsame
      have hfields := congrArg Decl.declared heq
      simp [namespaceDecl, serverDecl, FieldSpec.plain] at hfields
    cases hc
    rw [if_neg hname]
    exact ⟨_, rfl, .cons ⟨_, rfl⟩ (assigns_children _ _), rfl⟩

end Classes

end Emission

end LexiconCompiler
