import LexiconCompiler.Proofs.Compilation
import LexiconCompiler.Proofs.Emission.LexiconsUnit
import LexiconCompiler.Proofs.Emission.Needs
import LexiconCompiler.Proofs.Emission.Server
import LexiconCompiler.Proofs.Markup.JsonText
import LexiconCompiler.Proofs.TypeScript.Totality
import LexiconCompiler.Rendering

set_option autoImplicit false
set_option relaxedAutoImplicit false

/-!
The TypeScript files of a compilation. Nothing that a compilation declares stands in the way of
writing it down, except for schemas that are nested deeper than JSON text is laid out; without such
a schema every unit has its file.
-/

namespace LexiconCompiler

open LexiconCompiler.Code LexiconCompiler.Emission LexiconCompiler.Text LexiconCompiler.TypeScript

section Index

variable {tree : NamespaceTree} {tokens : TokenGroups}

private theorem obstacles_groupDecl (group : String) : (groupDecl tokens group).obstacles = [] := by
  simp [groupDecl, Decl.obstacles, Declared.obstacles, Expr.obstacles, entryObstacles_eq]

private theorem obstacles_childFields (children : List Namespace) :
    fieldObstacles (children.map childField) = [] := by
  simp [fieldObstacles_eq, childField, FieldSpec.plain, TypeExpr.here, TypeExpr.obstacles]

private theorem obstacles_childAssigns (server : Expr) (h : server.obstacles = [])
    (children : List Namespace) :
    (children.map (childAssign server)).flatMap Stmt.obstacles = [] := by
  simp [childAssign, Stmt.obstacles, Expr.ofThis, Expr.obstacles, argObstacles, h]

private theorem obstacles_serverDecl : (serverDecl tree).obstacles =
    [.library .server, .library .serverOptions, .library .createServer] := by
  have hassigns := obstacles_childAssigns .this rfl tree.roots
  simp [serverDecl, Decl.obstacles, Declared.obstacles, Callable.obstacles, fieldObstacles,
    obstacles_childFields, FieldSpec.plain, TypeExpr.obstacles, paramObstacles, serverOptions,
    hassigns, Stmt.obstacles, Expr.ofThis, Expr.obstacles, argObstacles]

private theorem obstacles_namespaceDecl (n : Namespace) : (namespaceDecl tree n).obstacles =
    [] := by
  have hassigns := obstacles_childAssigns (.ident "server") rfl (tree.childrenOf n.segments)
  have hmethods : (n.methods.map registration).flatMap (fun method => method.callable.obstacles) =
      [] := by
    rw [List.flatMap_map, List.flatMap_eq_nil_iff]
    exact fun method _ => rfl
  simp only [namespaceDecl, Decl.obstacles, Declared.obstacles, hmethods]
  simp [Callable.obstacles, fieldObstacles, obstacles_childFields, FieldSpec.plain, Param.plain,
    TypeExpr.here, TypeExpr.obstacles, paramObstacles, hassigns, Stmt.obstacles, Expr.ofThis,
    Expr.obstacles]

private theorem indexUnit_complete {v : SourceUnit} (h : indexUnit tree tokens = .ok v) :
    ∀ o ∈ v.obstacles, o.IsLibrary := by
  obtain ⟨_, _, hdecls⟩ := indexUnit_eq_ok h
  intro o ho
  rw [SourceUnit.obstacles, hdecls] at ho
  obtain ⟨decl, hd, ho⟩ := List.mem_flatMap.mp ho
  simp only [indexDecls, List.mem_append, List.mem_cons, List.mem_map] at hd
  rcases hd with ⟨group, _, rfl⟩ | rfl | rfl | ⟨entry, _, rfl⟩
  · rw [obstacles_groupDecl] at ho
    cases ho
  · obtain rfl := List.mem_singleton.mp ho
    decide
  · rw [obstacles_serverDecl] at ho
    have hall : ∀ o ∈ [Obstacle.library .server, .library .serverOptions,
        .library .createServer], o.IsLibrary := by decide
    exact hall o ho
  · rw [obstacles_namespaceDecl] at ho
    cases ho

end Index

section Lexicons

private theorem keyedSchemas_eq_ok {taken : List (String × String)} {documents : List Document}
    {schemas : List KeyedSchema} (h : keyedSchemas taken documents = .ok schemas) :
    List.Forall₂ (fun document json => document.rawJson = .ok json) documents
      (schemas.map KeyedSchema.json) := by
  induction documents generalizing taken schemas with
  | nil =>
    obtain rfl := Except.ok.inj h
    exact .nil
  | cons document rest ih =>
    rw [keyedSchemas] at h
    cases hl : taken.lookup (Casing.title document.id) with
    | some other =>
      simp only [hl] at h
      cases h
    | none =>
      simp only [hl, Outcome.bind_eq_ok, Outcome.mapError_eq_ok, Outcome.pure_eq_ok,
        encoded_eq_ok] at h
      obtain ⟨json, hjson, others, hothers, rfl⟩ := h
      exact .cons hjson (ih hothers)

private theorem obstacles_lexiconsUnit {registry : Registry} {v : SourceUnit}
    (h : lexiconsUnit registry = .ok v) :
    ∃ jsons, List.Forall₂ (fun document json => document.rawJson = .ok json)
        registry.documents jsons ∧
      v.obstacles = jsons.map Obstacle.json ++
        [.library .schema, .library .schema, .library .validator] := by
  simp only [lexiconsUnit, Outcome.bind_eq_ok, Outcome.pure_eq_ok] at h
  obtain ⟨schemas, hschemas, rfl⟩ := h
  refine ⟨schemas.map KeyedSchema.json, keyedSchemas_eq_ok hschemas, ?_⟩
  have hnone : (schemas.flatMap fun _ => ([] : List Obstacle)) = [] := by simp
  have hjson : (schemas.flatMap fun schema => [Obstacle.json schema.json]) =
      schemas.map fun schema => .json schema.json := List.map_eq_flatMap.symm
  simp [SourceUnit.obstacles, Decl.obstacles, Declared.obstacles, Expr.obstacles,
    entryObstacles_eq, List.flatMap_map, hnone, hjson, schemaList, TypeExpr.obstacles,
    argObstacles, Function.comp_def]

/-- The unit of all schemas can be written down exactly if no schema is nested too deep. -/
private theorem lexiconsUnit_writable {registry : Registry} {v : SourceUnit}
    (h : lexiconsUnit registry = .ok v) :
    (∀ o ∈ v.obstacles, Writable o) ↔
      ∀ document ∈ registry.documents, document.raw.nesting ≤ JsonToken.maxDepth := by
  obtain ⟨jsons, hjsons, hobstacles⟩ := obstacles_lexiconsUnit h
  have hlibrary : ∀ o ∈ [Obstacle.library .schema, .library .schema, .library .validator],
      o.IsLibrary := by decide
  have hlibraries := fun o ho => writable_of_isLibrary (hlibrary o ho)
  rw [hobstacles, List.forall_mem_append, and_iff_left hlibraries, List.forall_mem_map]
  have hdepth {document : Document} {json : String} (hjson : document.rawJson = .ok json) :
      Writable (.json json) ↔ document.raw.nesting ≤ JsonToken.maxDepth :=
    jsonLayout?_isSome_iff (document.raw.jsonText hjson) "" ""
  constructor
  · intro hall document hd
    obtain ⟨json, hmem, hjson⟩ := exists_of_forall₂_mem hjsons.flip hd
    exact (hdepth hjson).mp (hall json hmem)
  · intro hall json hmem
    obtain ⟨document, hd, hjson⟩ := exists_of_forall₂_mem hjsons hmem
    exact (hdepth hjson).mpr (hall document hd)

end Lexicons

section Files

variable {c : Compilation} {options : Options}

private theorem file_eq_ok {u : SourceUnit} {file : File} :
    (Backend.typescript options).file u = .ok file ↔
      file.path = u.path ++ ".ts" ∧ unitText options.style u = .ok file.content := by
  simp only [Backend.file, Backend.content, Outcome.bind_eq_ok, Outcome.mapError_eq_ok,
    Outcome.pure_eq_ok]
  constructor
  · rintro ⟨text, htext, rfl⟩
    exact ⟨rfl, htext⟩
  · rintro ⟨hpath, htext⟩
    exact ⟨file.content, htext, by rw [Backend.ext, ← hpath]⟩

private theorem render_isOk_iff :
    (∃ files, c.render (.typescript options) = .ok files ∧
      List.Forall₂ (fun u file => file.path = u.path ++ ".ts" ∧
        unitText options.style u = .ok file.content) c.units files) ↔
      ∀ u ∈ c.units, ∀ o ∈ u.obstacles, Writable o := by
  have hfile (u : SourceUnit) : (∃ file, (Backend.typescript options).file u = .ok file) ↔
      ∀ o ∈ u.obstacles, Writable o := by
    rw [← unitText_isOk_iff options.style]
    constructor
    · rintro ⟨file, hfile⟩
      exact ⟨file.content, (file_eq_ok.mp hfile).2⟩
    · rintro ⟨text, htext⟩
      exact ⟨⟨_, text⟩, file_eq_ok.mpr ⟨rfl, htext⟩⟩
  have hall : (∃ files, c.units.mapM (Backend.typescript options).file = .ok files) ↔ _ :=
    Outcome.mapM_isOk_iff
  simp only [hfile] at hall
  rw [← hall]
  constructor
  · rintro ⟨files, hfiles, _⟩
    exact ⟨files, Outcome.mapError_eq_ok.mp hfiles⟩
  · rintro ⟨files, hfiles⟩
    exact ⟨files, Outcome.mapError_eq_ok.mpr hfiles,
      (Outcome.mapM_eq_ok hfiles).imp fun _ _ hone => file_eq_ok.mp hone⟩

end Files

namespace Batch

/-- Every document of a compilation has a JSON text, and the compilation has its TypeScript files,
one for each unit in order, whatever the options, exactly if no document is nested deeper than JSON
text is laid out. -/
theorem compile_render {b : Batch} {skipGuards : Bool} {c : Compilation}
    (hc : b.compile skipGuards false = .ok c) (options : Options) :
    (∀ document ∈ b.registry.documents, ∃ json, document.rawJson = .ok json ∧
      JsonText .value document.raw.nesting json.toList ∧
      ∀ start step, (jsonLayout? start step json).isSome = true ↔
        document.raw.nesting ≤ JsonToken.maxDepth) ∧
    ((∃ files, c.render (.typescript options) = .ok files ∧
      List.Forall₂ (fun u file => file.path = u.path ++ ".ts" ∧
        unitText options.style u = .ok file.content) c.units files) ↔
      ∀ document ∈ b.registry.documents, document.raw.nesting ≤ JsonToken.maxDepth) := by
  obtain ⟨own, lexicons, index, hunits, hown, hlexicons, hindex⟩ := compile_eq_ok hc
  constructor
  · intro document hd
    obtain ⟨jsons, hjsons, _⟩ := obstacles_lexiconsUnit hlexicons
    obtain ⟨json, _, hjson⟩ := exists_of_forall₂_mem hjsons.flip hd
    have htext := document.raw.jsonText hjson
    exact ⟨json, hjson, htext, jsonLayout?_isSome_iff htext⟩
  · have hdocuments : ∀ u ∈ own, ∀ o ∈ u.obstacles, Writable o := by
      intro u hu o ho
      obtain ⟨document, _, hmade⟩ := exists_of_forall₂_mem hown hu
      obtain ⟨decls, rfl, hsound⟩ := documentUnit_leaves hmade
      exact writable_of_isLibrary (hsound.complete o ho)
    have hserver : ∀ o ∈ index.obstacles, Writable o :=
      fun o ho => writable_of_isLibrary (indexUnit_complete hindex o ho)
    rw [render_isOk_iff, hunits, List.forall_mem_append, and_iff_right hdocuments,
      List.forall_mem_cons, List.forall_mem_singleton, and_iff_left hserver]
    exact lexiconsUnit_writable hlexicons

theorem compile_render_likes :
    ∃ b c, Batch.analyze (likes.map some) = .ok b ∧ b.compile false false = .ok c ∧
      b.registry.documents.map (fun document => document.raw.nesting) = [4, 3] ∧
      ∃ files, c.render (.typescript .default) = .ok files ∧
        List.Forall₂ (fun u file => file.path = u.path ++ ".ts" ∧
          unitText Options.default.style u = .ok file.content) c.units files := by
  obtain ⟨b, c, hb, hc, _⟩ := likes_compile
  have hregistry : b.registry.documents = likes := (analyze_eq_ok_iff.mp hb).2.2.2.1 ▸ rfl
  refine ⟨b, c, hb, hc, ?_, (compile_render hc .default).2.mpr ?_⟩
  · rw [hregistry]
    decide +kernel
  · rw [hregistry]
    decide +kernel

end Batch

end LexiconCompiler
