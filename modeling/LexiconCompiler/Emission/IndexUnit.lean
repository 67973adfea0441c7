import LexiconCompiler.Emission.Basic
import LexiconCompiler.Namespace
import LexiconCompiler.TokenGroups

set_option autoImplicit false
set_option relaxedAutoImplicit false

/-!
The unit of the server: a constant for each group of tokens, the server and its entry point, and a
class for each namespace that registers the methods living there.
-/

namespace LexiconCompiler.Emission

open LexiconCompiler.Code

def groupDecl (tokens : TokenGroups) (group : String) : Decl :=
  ⟨Casing.screaming group, .none, .const none
    (.object ((tokens.names group).map fun name =>
      ⟨Casing.title name, .str (Token.address ⟨group, name⟩)⟩))⟩

/-- The options of a server, which may be left out. -/
def serverOptions : Param TypeExpr := ⟨"options", .runtime .serverOptions, true⟩

def createServerDecl : Decl :=
  ⟨"createServer", .none, .function
    ⟨[serverOptions], some (.here "Server"),
      [.ret (.construct (.ident "Server") [.ident "options"])]⟩⟩

/-- The field of a namespace inside another one or inside the server. -/
def childField (child : Namespace) : FieldSpec TypeExpr :=
  .plain (Casing.camel child.segment) (.here (className child.path))

def childAssign (server : Expr) (child : Namespace) : Stmt :=
  .assign (.ofThis (Casing.camel child.segment))
    (.construct (.ident (className child.path)) [server])

/-- The server: it owns the dispatcher and has a field for each outermost namespace. -/
def serverDecl (tree : NamespaceTree) : Decl :=
  ⟨"Server", .none, .cls
    (.plain "xrpc" (.runtime .server) :: tree.roots.map childField)
    (some
      { params := [serverOptions]
        result := none
        body :=
          .assign (.ofThis "xrpc")
            (.call (.runtime .createServer) [.imported lexiconsName "schemas", .ident "options"]) ::
          tree.roots.map (childAssign .this) })
    []⟩

def registration (method : Nsid) : Code.ClassMethod :=
  ⟨Casing.camel method.name,
    { params := [.plain "handler" (.ref (some method.text) "Handler")]
      result := none
      body :=
        [.ret (.call (.member (.member (.ofThis "_server") "xrpc") "method")
          [.str method.text, .ident "handler"])] }⟩

def namespaceDecl (tree : NamespaceTree) (n : Namespace) : Decl :=
  let children := tree.childrenOf n.segments
  ⟨className n.path, .none, .cls
    (.plain "_server" (.here "Server") :: children.map childField)
    (some
      { params := [.plain "server" (.here "Server")]
        result := none
        body :=
          .assign (.ofThis "_server") (.ident "server") ::
          children.map (childAssign (.ident "server")) })
    (n.methods.map registration)⟩

/-- Declares the class of a namespace, which needs the units of its methods. -/
def declareNamespace (tree : NamespaceTree) (n : Namespace) : Emit Unit := do
  n.methods.forM fun method => depend method.text
  declare (namespaceDecl tree n)

def indexUnit (tree : NamespaceTree) (tokens : TokenGroups) : Except Problem SourceUnit :=
  grow indexName .index do
    tokens.groups.forM fun group => declare (groupDecl tokens group)
    declare createServerDecl
    depend lexiconsName
    declare (serverDecl tree)
    tree.walk.forM fun (n, _) => declareNamespace tree n

end LexiconCompiler.Emission
