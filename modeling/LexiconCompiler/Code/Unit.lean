import LexiconCompiler.Code.Expr

set_option autoImplicit false
set_option relaxedAutoImplicit false

/-!
Declarations, and the units they are gathered in. A unit becomes one file.
-/

namespace LexiconCompiler.Code

open LexiconCompiler.Text

/-- Parameters, result and body of a function, method or constructor. -/
structure Callable where
  params : List (Param TypeExpr)
  result : Option TypeExpr
  body : List Stmt
  deriving Repr

/-- A method of a class. -/
structure ClassMethod where
  name : String
  callable : Callable
  deriving Repr

/-- What a name is declared to be. -/
inductive Declared where
  | interface (fields : List (FieldSpec TypeExpr)) (isOpen : Bool)
  | alias (type : TypeExpr)
  | const (type : Option TypeExpr) (value : Expr)
  | function (callable : Callable)
  | cls (fields : List (FieldSpec TypeExpr)) (constructor? : Option Callable)
      (methods : List ClassMethod)
  deriving Repr

def Declared.kindName : Declared -> String
  | .interface .. => "Interface"
  | .alias .. => "Alias"
  | .const .. => "Const"
  | .function .. => "Function"
  | .cls .. => "Class"

/-- A named declaration, visible to other units. -/
structure Decl where
  name : String
  doc : Documentation
  declared : Declared
  deriving Repr

/-- Declares an object type as an interface and any other type as an alias. -/
def Decl.ofType (name : String) (doc : Documentation) : TypeExpr -> Decl
  | .object fields isOpen => ⟨name, doc, .interface fields isOpen⟩
  | type => ⟨name, doc, .alias type⟩

/-- The roles of units. -/
inductive UnitKind where
  | document
  | lexicons
  | index
  deriving DecidableEq, Repr

def UnitKind.name : UnitKind -> String
  | .document => "Document"
  | .lexicons => "Lexicons"
  | .index => "Index"

def lexiconsName : String := "lexicons"

def indexName : String := "index"

/-- Declarations in order, and the other units they need in order of first use. -/
structure SourceUnit where
  name : String
  kind : UnitKind
  deps : List String
  decls : List Decl
  deriving Repr

/-- Where the unit of a name goes, without an extension. -/
def pathOf (name : String) : String :=
  if name == lexiconsName || name == indexName then name
  else "types/" ++ joinWith "/" (split '.' name)

namespace SourceUnit

def empty (name : String) (kind : UnitKind) : SourceUnit := ⟨name, kind, [], []⟩

/-- Where the unit goes, without an extension. -/
def path (unit : SourceUnit) : String := pathOf unit.name

/-- Whether a name would be a new need: it is no unit, the unit itself or known otherwise. -/
def isNewDep (unit : SourceUnit) (name : String) : Bool :=
  !(name.isEmpty || name == unit.name || unit.deps.contains name)

/-- Records that another unit is needed. -/
def addDep (unit : SourceUnit) (name : String) : SourceUnit :=
  if unit.isNewDep name then { unit with deps := unit.deps ++ [name] } else unit

def addDecl (unit : SourceUnit) (decl : Decl) : SourceUnit :=
  { unit with decls := unit.decls ++ [decl] }

def decl? (unit : SourceUnit) (name : String) : Option Decl :=
  unit.decls.find? fun decl => decl.name == name

def declares (unit : SourceUnit) (name : String) : Bool :=
  unit.decls.any fun decl => decl.name == name

end SourceUnit

end LexiconCompiler.Code
