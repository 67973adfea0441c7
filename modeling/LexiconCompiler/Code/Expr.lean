import LexiconCompiler.Code.TypeExpr

set_option autoImplicit false
set_option relaxedAutoImplicit false

/-!
Values and statements of generated code.
-/

namespace LexiconCompiler.Code

/-- A key and its value. -/
structure Entry (α : Type) where
  key : String
  value : α
  deriving Repr

/-- A value of generated code. -/
inductive Expr where
  | missing
  /-- A parameter or a declaration of the same unit. -/
  | ident (name : String)
  | this
  | str (value : String)
  | member (receiver : Expr) (name : String)
  | call (function : Expr) (args : List Expr)
  | construct (cls : Expr) (args : List Expr)
  | object (entries : List (Entry Expr))
  /-- JSON text, whatever it holds. -/
  | json (text : String)
  /-- The values of an object in key order. -/
  | values (subject : Expr)
  | cast (subject : Expr) (type : TypeExpr)
  /-- Whether a parameter is an object tagged with one of the tags. -/
  | tagCheck (param : String) (tags : List String)
  | runtime (handle : RuntimeHandle)
  /-- A declaration of another unit. -/
  | imported (unit name : String)
  deriving Repr

def Expr.ofThis (name : String) : Expr := .member .this name

/-- A statement of a body. -/
inductive Stmt where
  | ret (value : Expr)
  | assign (target value : Expr)
  deriving Repr

end LexiconCompiler.Code
