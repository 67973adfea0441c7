import LexiconCompiler.Code.Unit

set_option autoImplicit false
set_option relaxedAutoImplicit false

/-!
Code without its prose. Declarations and fields have documentation, and fields also stand in the
types of parameters, results and values, so prose is taken out at every depth. What an attachment
may hold is prose as well: its type does not say it.
-/

namespace LexiconCompiler.Code

mutual

def TypeExpr.undocumented : TypeExpr -> TypeExpr
  | .union members isOpen base => .union (undocumentedMembers members) isOpen base
  | .object fields isOpen => .object (undocumentedFields fields) isOpen
  | .array element => .array element.undocumented
  | .func params result maybeAsync =>
    .func (undocumentedParams params) result.undocumented maybeAsync
  | .predicate param target => .predicate param target.undocumented
  | .missing => .missing
  | .scalar kind => .scalar kind
  | .literal value => .literal value
  | .blob variant _ _ => .blob variant [] none
  | .ref unit name => .ref unit name
  | .bytes => .bytes
  | .void => .void
  | .runtime handle => .runtime handle

def undocumentedMembers : List TypeExpr -> List TypeExpr
  | [] => []
  | member :: rest => member.undocumented :: undocumentedMembers rest

def undocumentedFields : List (FieldSpec TypeExpr) -> List (FieldSpec TypeExpr)
  | [] => []
  | ⟨name, type, optional, _⟩ :: rest =>
    ⟨name, type.undocumented, optional, Documentation.none⟩ :: undocumentedFields rest

def undocumentedParams : List (Param TypeExpr) -> List (Param TypeExpr)
  | [] => []
  | ⟨name, type, optional⟩ :: rest =>
    ⟨name, type.undocumented, optional⟩ :: undocumentedParams rest

end

mutual

def Expr.undocumented : Expr -> Expr
  | .member receiver name => .member receiver.undocumented name
  | .call function args => .call function.undocumented (undocumentedArgs args)
  | .construct cls args => .construct cls.undocumented (undocumentedArgs args)
  | .object entries => .object (undocumentedEntries entries)
  | .values subject => .values subject.undocumented
  | .cast subject type => .cast subject.undocumented type.undocumented
  | .missing => .missing
  | .ident name => .ident name
  | .this => .this
  | .str value => .str value
  | .json text => .json text
  | .tagCheck param tags => .tagCheck param tags
  | .runtime handle => .runtime handle
  | .imported unit name => .imported unit name

def undocumentedArgs : List Expr -> List Expr
  | [] => []
  | arg :: rest => arg.undocumented :: undocumentedArgs rest

def undocumentedEntries : List (Entry Expr) -> List (Entry Expr)
  | [] => []
  | ⟨key, value⟩ :: rest => ⟨key, value.undocumented⟩ :: undocumentedEntries rest

end

def Stmt.undocumented : Stmt -> Stmt
  | .ret value => .ret value.undocumented
  | .assign target value => .assign target.undocumented value.undocumented

def Callable.undocumented (callable : Callable) : Callable :=
  { params := undocumentedParams callable.params
    result := callable.result.map TypeExpr.undocumented
    body := callable.body.map Stmt.undocumented }

def ClassMethod.undocumented (method : ClassMethod) : ClassMethod :=
  { method with callable := method.callable.undocumented }

def Declared.undocumented : Declared -> Declared
  | .interface fields isOpen => .interface (undocumentedFields fields) isOpen
  | .alias type => .alias type.undocumented
  | .const type value => .const (type.map TypeExpr.undocumented) value.undocumented
  | .function callable => .function callable.undocumented
  | .cls fields constructor? methods =>
    .cls (undocumentedFields fields) (constructor?.map Callable.undocumented)
      (methods.map ClassMethod.undocumented)

def Decl.undocumented (decl : Decl) : Decl :=
  { decl with doc := Documentation.none, declared := decl.declared.undocumented }

/-- A unit with the same code and without any prose. -/
def SourceUnit.undocumented (u : SourceUnit) : SourceUnit :=
  { u with decls := u.decls.map Decl.undocumented }

end LexiconCompiler.Code
