import LexiconCompiler.Code.TypeExpr
import LexiconCompiler.Text.Quoted

set_option autoImplicit false
set_option relaxedAutoImplicit false

/-!
A compact notation for types of generated code, of no particular language.
-/

namespace LexiconCompiler.Code

open LexiconCompiler.Text

def Literal.text : Literal -> String
  | .str value => quote value
  | .int value => toString value
  | .float value => value.text
  | .bool value => if value then "true" else "false"

def TypeExpr.hasAlternatives : TypeExpr -> Bool
  | .union members _ _ => members.length > 1
  | _ => false

/-- What stands in for the base of an open union. -/
def baseCompact : Option ScalarKind -> String
  | some kind => kind.name
  | none => "<nil>"

mutual

def TypeExpr.compact : TypeExpr -> String
  | .missing => "<nil>"
  | .scalar kind => kind.name
  | .literal value => value.text
  | .union members isOpen base =>
    joinWith " | " (compactEach members ++ if isOpen then ["(" ++ baseCompact base ++ ")"] else [])
  | .object fields isOpen =>
    "\x7b" ++ joinWith ", " (compactFields fields ++ if isOpen then ["..."] else []) ++ "\x7d"
  | .array element =>
    (if element.hasAlternatives then "(" ++ element.compact ++ ")" else element.compact) ++ "[]"
  | .blob variant _ _ =>
    if variant.isEmpty || variant == "blob" then "blob" else "blob<" ++ variant ++ ">"
  | .ref none name => name
  | .ref (some unit) name => unit ++ "." ++ name
  | .bytes => "bytes"
  | .void => "void"
  | .func params result maybeAsync =>
    "(" ++ joinWith ", " (compactParams params) ++ ") => " ++
      (if maybeAsync then "async? " else "") ++ result.compact
  | .runtime handle => "<" ++ handle.name ++ ">"
  | .predicate param target => param ++ " is " ++ target.compact

def compactEach : List TypeExpr -> List String
  | [] => []
  | type :: rest => type.compact :: compactEach rest

def compactFields : List (FieldSpec TypeExpr) -> List String
  | [] => []
  | ⟨name, type, optional, _⟩ :: rest =>
    (name ++ (if optional then "?" else "") ++ ": " ++ type.compact) :: compactFields rest

/-- Each parameter of a list in the compact notation. -/
def compactParams : List (Param TypeExpr) -> List String
  | [] => []
  | ⟨name, type, optional⟩ :: rest =>
    (name ++ (if optional then "?" else "") ++ ": " ++ type.compact) :: compactParams rest

end

end LexiconCompiler.Code
