import LexiconCompiler.Number.Layout
import LexiconCompiler.Text.Basic

set_option autoImplicit false
set_option relaxedAutoImplicit false

/-!
Types of generated code, before a target language writes them down.
-/

namespace LexiconCompiler.Code

open LexiconCompiler.Text

/-- Prose of a declaration or field. Notes are facts that the types do not say. -/
structure Documentation where
  body : String
  notes : List String
  deriving DecidableEq, Repr

namespace Documentation

def none : Documentation := ⟨"", []⟩

def isZero (doc : Documentation) : Bool := (trim doc.body).isEmpty && doc.notes.isEmpty

end Documentation

/-- Built-in types. -/
inductive ScalarKind where
  | boolean
  | number
  | integer
  | string
  | datetime
  | unknown
  | invalid
  deriving DecidableEq, Repr

def ScalarKind.name : ScalarKind -> String
  | .boolean => "boolean"
  | .number => "number"
  | .integer => "integer"
  | .string => "string"
  | .datetime => "datetime"
  | .unknown => "unknown"
  | .invalid => "invalid"

def ScalarKind.ofName (s : String) : ScalarKind :=
  ([.boolean, .number, .integer, .string, .datetime, .unknown].find? fun kind =>
    ScalarKind.name kind == s).getD .invalid

/-- Constants that are types of their own. -/
inductive Literal where
  | str (value : String)
  | int (value : Int)
  | float (value : Binary64)
  | bool (value : Bool)
  deriving DecidableEq, Repr

/-- Things that the libraries around the generated code supply. -/
inductive RuntimeHandle where
  | request
  | response
  | server
  | serverOptions
  | createServer
  | validationResult
  | validator
  | schema
  | blobRef
  | other (name : String)
  deriving DecidableEq, Repr

namespace RuntimeHandle

def known : List RuntimeHandle :=
  [.request, .response, .server, .serverOptions, .createServer, .validationResult, .validator,
   .schema, .blobRef]

def name : RuntimeHandle -> String
  | .request => "request"
  | .response => "response"
  | .server => "dispatch-server"
  | .serverOptions => "dispatch-options"
  | .createServer => "create-dispatch-server"
  | .validationResult => "validation-result"
  | .validator => "validator"
  | .schema => "schema-document"
  | .blobRef => "blob-ref"
  | .other name => name

def ofName (s : String) : RuntimeHandle :=
  (known.find? fun handle => handle.name == s).getD (.other s)

end RuntimeHandle

/-- A named member of an object type or class. -/
structure FieldSpec (α : Type) where
  name : String
  type : α
  optional : Bool
  doc : Documentation
  deriving Repr

/-- A parameter of a function. -/
structure Param (α : Type) where
  name : String
  type : α
  optional : Bool
  deriving Repr

/-- A type of generated code. A reference without a unit stays in the unit it stands in. An open
union also admits every value of its base; an open object also admits other keys. -/
inductive TypeExpr where
  | missing
  | scalar (kind : ScalarKind)
  | literal (value : Literal)
  | union (members : List TypeExpr) (isOpen : Bool) (base : Option ScalarKind)
  | object (fields : List (FieldSpec TypeExpr)) (isOpen : Bool)
  | array (element : TypeExpr)
  | blob (variant : String) (accept : List String) (maxSize : Option Int)
  | ref (unit : Option String) (name : String)
  | bytes
  | void
  | func (params : List (Param TypeExpr)) (result : TypeExpr) (maybeAsync : Bool)
  | runtime (handle : RuntimeHandle)
  | predicate (param : String) (target : TypeExpr)
  deriving Repr

namespace TypeExpr

/-- A declaration of the same unit. -/
def here (name : String) : TypeExpr := .ref none name

def oneOf (members : List TypeExpr) : TypeExpr := .union members false none

def texts (values : List String) : TypeExpr := oneOf (values.map fun s => .literal (.str s))

end TypeExpr

/-- A field that has to be present and has no prose. -/
def FieldSpec.plain (name : String) (type : TypeExpr) : FieldSpec TypeExpr :=
  ⟨name, type, false, Documentation.none⟩

def Param.plain (name : String) (type : TypeExpr) : Param TypeExpr := ⟨name, type, false⟩

end LexiconCompiler.Code
