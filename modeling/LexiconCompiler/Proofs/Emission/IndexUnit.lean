import LexiconCompiler.Emission.IndexUnit
import LexiconCompiler.Proofs.Emission.DocumentUnit
import LexiconCompiler.Proofs.Namespace

set_option autoImplicit false
set_option relaxedAutoImplicit false

/-!
The unit of the server: all names in it are bound. It declares the server and the class of every
namespace that the walk meets, and it names no other class.
-/

namespace LexiconCompiler.Emission

open LexiconCompiler.Code

/-- What the unit of the server may name: the server, the classes of namespaces, the schemas, and
the handlers of the methods. -/
inductive Serves (tree : NamespaceTree) : Known
  | server : Serves tree none "Server"
  | cls {n : Namespace} {d : Nat} : (n, d) ∈ tree.walk → Serves tree none (className n.path)
  | schemas : Serves tree (some lexiconsName) "schemas"
  | handler {n : Namespace} {d : Nat} {method : Nsid} : (n, d) ∈ tree.walk → method ∈ n.methods →
      Serves tree (some method.text) "Handler"

section Loops

variable {α : Type} {u v : SourceUnit} {a : PUnit}

private theorem forM_cons_eq_ok {step : α → Emit PUnit} {x : α} {rest : List α} :
    (x :: rest).forM step u = .ok (a, v) ↔
      ∃ b w, step x u = .ok (b, w) ∧ rest.forM step w = .ok (a, v) := by
  have hcons : (x :: rest).forM step = (step x >>= fun _ => rest.forM step) := rfl
  rw [hcons, bind_eq_ok]

private theorem forM_grows (known : Known) (name : α → String) {step : α → Emit PUnit} {xs : List α}
    (hstep : ∀ x ∈ xs, ∀ u v a, step x u = .ok (a, v) →
      Grows known u v ∧ v.declares (name x) = true)
    (h : xs.forM step u = .ok (a, v)) :
    Grows known u v ∧ ∀ x ∈ xs, v.declares (name x) = true := by
  induction xs generalizing u with
  | nil =>
    obtain ⟨_, rfl⟩ := pure_eq_ok.mp h
    exact ⟨.refl _ u, by simp⟩
  | cons x rest ih =>
    obtain ⟨_, w, hfirst, hrest⟩ := forM_cons_eq_ok.mp h
    rw [List.forall_mem_cons] at hstep
    obtain ⟨hg, hd⟩ := hstep.1 _ _ _ hfirst
    obtain ⟨hgrest, hdrest⟩ := ih hstep.2 hrest
    exact ⟨hg.trans hgrest, List.forall_mem_cons.mpr ⟨hgrest.declares hd, hdrest⟩⟩

private theorem forM_depend_keeps {name : α → String} {xs : List α}
    (h : (xs.forM fun x => depend (name x)) u = .ok (a, v)) : Keeps u v := by
  induction xs generalizing u with
  | nil =>
    obtain ⟨_, rfl⟩ := pure_eq_ok.mp h
    exact .refl u
  | cons x rest ih =>
    obtain ⟨_, w, hfirst, hrest⟩ := forM_cons_eq_ok.mp h
    obtain rfl := depend_eq_ok.mp hfirst
    exact (keeps_addDep u (name x)).trans (ih hrest)

end Loops

section Declarations

variable {tree : NamespaceTree} {documents : List Document}

private theorem bound_groupDecl (known : Known) (tokens : TokenGroups) (group : String) :
    (groupDecl tokens group).Bound known := by
  refine ⟨by simp, .object fun entry he => ?_⟩
  obtain ⟨name, _, rfl⟩ := List.mem_map.mp he
  exact .str

private theorem bound_serverOptions (known : Known) :
    ∀ param ∈ [serverOptions], param.type.Bound known [] := by
  intro param hp
  obtain rfl := List.mem_singleton.mp hp
  exact .runtime

private theorem bound_createServerDecl : createServerDecl.Bound (Serves tree) where
  params := bound_serverOptions _
  result := by
    intro type ht
    obtain rfl := Option.some.inj ht
    exact .ref .server
  body := by
    intro stmt hs
    obtain rfl := List.mem_singleton.mp hs
    refine .construct (.ident (Or.inr .server)) fun arg ha => ?_
    obtain rfl := List.mem_singleton.mp ha
    exact .ident (Or.inl (List.mem_singleton.mpr rfl))

private theorem bound_childField {children : List Namespace}
    (hc : ∀ child ∈ children, ∃ d, (child, d) ∈ tree.walk) :
    ∀ field ∈ children.map childField, field.type.Bound (Serves tree) [] := by
  intro field hf
  obtain ⟨child, hchild, rfl⟩ := List.mem_map.mp hf
  obtain ⟨d, hd⟩ := hc child hchild
  exact .ref (.cls hd)

private theorem bound_childAssign {children : List Namespace} {server : Expr} {scope : List String}
    (hs : server.Bound (Serves tree) scope) (hc : ∀ child ∈ children, ∃ d, (child, d) ∈ tree.walk) :
    ∀ stmt ∈ children.map (childAssign server), stmt.Bound (Serves tree) scope := by
  intro stmt hstmt
  obtain ⟨child, hchild, rfl⟩ := List.mem_map.mp hstmt
  obtain ⟨d, hd⟩ := hc child hchild
  refine ⟨.member .this, .construct (.ident (Or.inr (.cls hd))) fun arg ha => ?_⟩
  obtain rfl := List.mem_singleton.mp ha
  exact hs

private theorem bound_serverDecl (ht : tree.Sound documents) : (serverDecl tree).Bound
    (Serves tree) := by
  have hroots : ∀ child ∈ tree.roots, ∃ d, (child, d) ∈ tree.walk :=
    fun child hc => NamespaceTree.roots_mem_walk ht hc
  refine ⟨List.forall_mem_cons.mpr ⟨.runtime, bound_childField hroots⟩, ?_, by simp⟩
  intro callable hcallable
  obtain rfl := Option.some.inj hcallable
  refine ⟨bound_serverOptions _, by simp, ?_⟩
  refine List.forall_mem_cons.mpr ⟨⟨.member .this, .call .runtime fun arg ha => ?_⟩,
    bound_childAssign .this hroots⟩
  simp only [List.mem_cons, List.not_mem_nil, or_false] at ha
  rcases ha with rfl | rfl
  · exact .imported .schemas
  · exact .ident (Or.inl (List.mem_singleton.mpr rfl))

private theorem bound_registration {method : Nsid}
    (h : Serves tree (some method.text) "Handler") :
    (registration method).callable.Bound (Serves tree) where
  params := by
    intro param hp
    obtain rfl := List.mem_singleton.mp hp
    exact .ref h
  result := by simp [registration]
  body := by
    intro stmt hs
    obtain rfl := List.mem_singleton.mp hs
    refine .call (.member (.member (.member .this))) fun arg ha => ?_
    simp only [List.mem_cons, List.not_mem_nil, or_false] at ha
    rcases ha with rfl | rfl
    · exact .str
    · exact .ident (Or.inl (List.mem_singleton.mpr rfl))

private theorem bound_namespaceDecl (ht : tree.Sound documents) {n : Namespace} {d : Nat}
    (hn : (n, d) ∈ tree.walk) : (namespaceDecl tree n).Bound (Serves tree) := by
  have hchildren : ∀ child ∈ tree.childrenOf n.segments, ∃ e, (child, e) ∈ tree.walk :=
    fun child hc => NamespaceTree.child_mem_walk ht hn hc
  have hserver : Expr.Bound (Serves tree) ["server"] (.ident "server") :=
    .ident (Or.inl (List.mem_singleton.mpr rfl))
  refine ⟨List.forall_mem_cons.mpr ⟨.ref .server, bound_childField hchildren⟩, ?_, ?_⟩
  · intro callable hcallable
    obtain rfl := Option.some.inj hcallable
    refine ⟨?_, by simp, ?_⟩
    · intro param hp
      obtain rfl := List.mem_singleton.mp hp
      exact .ref .server
    · exact List.forall_mem_cons.mpr ⟨⟨.member .this, hserver⟩,
        bound_childAssign hserver hchildren⟩
  · intro method hm
    obtain ⟨nsid, hnsid, rfl⟩ := List.mem_map.mp hm
    exact bound_registration (.handler hn hnsid)

end Declarations

theorem indexUnit_grows {tree : NamespaceTree} {tokens : TokenGroups} {documents : List Document}
    {v : SourceUnit} (ht : tree.Sound documents) (h : indexUnit tree tokens = .ok v) :
    v.name = indexName ∧ (∀ decl ∈ v.decls, decl.Bound (Visible (Serves tree) v)) ∧
      v.declares "Server" = true ∧ ∀ n d, (n, d) ∈ tree.walk →
        v.declares (className n.path) = true := by
  have hvisible (u : SourceUnit) : ∀ unit name, Serves tree unit name →
      Visible (Serves tree) u unit name := fun _ _ hk => Or.inl hk
  obtain ⟨a, hall⟩ := grow_eq_ok h
  simp only [bind_eq_ok, depend_eq_ok] at hall
  obtain ⟨_, u₁, hgroups, _, u₂, hcreate, _, _, rfl, _, u₃, hserver, hnamespaces⟩ := hall
  obtain ⟨g₁, _⟩ := forM_grows (Serves tree) (fun group => (groupDecl tokens group).name)
    (fun group _ _ _ _ hd => grows_declare (Serves tree) hd (bound_groupDecl _ tokens group))
    hgroups
  obtain ⟨g₂, _⟩ := grows_declare (Serves tree) hcreate (bound_createServerDecl.mono (hvisible u₁))
  have g₃ : Grows (Serves tree) u₂ (u₂.addDep lexiconsName) := (keeps_addDep u₂ lexiconsName).grows
  obtain ⟨g₄, dserver⟩ := grows_declare (Serves tree) hserver
    ((bound_serverDecl ht).mono (hvisible _))
  have hstep : ∀ entry ∈ tree.walk, ∀ u v a, declareNamespace tree entry.1 u = .ok (a, v) →
      Grows (Serves tree) u v ∧ v.declares (className entry.1.path) = true := by
    intro entry hentry u v a hd
    simp only [declareNamespace, bind_eq_ok] at hd
    obtain ⟨_, w, hdepend, hdeclare⟩ := hd
    obtain ⟨hg, hdeclares⟩ := grows_declare (Serves tree) hdeclare
      ((bound_namespaceDecl ht hentry).mono (hvisible w))
    exact ⟨(forM_depend_keeps hdepend).grows.trans hg, hdeclares⟩
  obtain ⟨g₅, dclasses⟩ :=
    forM_grows (Serves tree) (fun entry : Namespace × Nat => className entry.1.path) hstep
      hnamespaces
  have hgrows := g₁.trans (g₂.trans (g₃.trans (g₄.trans g₅)))
  exact ⟨hgrows.name, hgrows.bound, g₅.declares dserver, fun n d hn => dclasses (n, d) hn⟩

end LexiconCompiler.Emission
