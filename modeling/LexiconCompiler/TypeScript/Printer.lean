import LexiconCompiler.Code.Compact
import LexiconCompiler.Text.JsonLayout
import LexiconCompiler.TypeScript.Comment
import LexiconCompiler.TypeScript.Identifier
import LexiconCompiler.TypeScript.Imports

set_option autoImplicit false
set_option relaxedAutoImplicit false

/-!
Units as TypeScript. Types, values and declarations are written while what they import is
collected, and the imports then go in front.
-/

namespace LexiconCompiler.TypeScript

open LexiconCompiler.Code
open LexiconCompiler.Text

/-- Why a unit cannot be written. -/
inductive PrintFault where
  | missingType
  | missingExpression
  | unknownHandle (name : String)
  | invalidJson
  | inside (place : String) (fault : PrintFault)
  deriving DecidableEq, Repr

def PrintFault.message : PrintFault -> String
  | .missingType => "missing type"
  | .missingExpression => "missing expression"
  | .unknownHandle name => "unsupported runtime handle " ++ quote name
  | .invalidJson => "invalid JSON value"
  | .inside place fault => place ++ ": " ++ fault.message

/-- Text that is written while imports are collected. -/
abbrev Print := StateT Imports (Except PrintFault)

def refuse {α : Type} (fault : PrintFault) : Print α := fun _ => .error fault

/-- Adds a place to the fault that something ends with. -/
def within {α : Type} (place : String) (print : Print α) : Print α := fun imports =>
  (print imports).mapError (.inside place)

/-- Where something is written: the choices, and the name of the unit. -/
structure Site where
  style : Style
  unit : String

/-- Something that a library supplies. -/
def useRuntime (handle : RuntimeHandle) : Print String :=
  match binding? handle with
  | none => refuse (.unknownHandle handle.name)
  | some binding => do
    modify (Imports.useBinding · binding)
    return binding.use

/-- The built-in types of TypeScript. -/
def scalarText : ScalarKind -> String
  | .boolean => "boolean"
  | .number => "number"
  | .integer => "number"
  | .string => "string"
  | .datetime => "string"
  | .unknown => "unknown"
  | .invalid => "unknown"

/-- Whether a type stands in brackets in front of the brackets of an array. -/
def needsBrackets : TypeExpr -> Bool
  | .union members isOpen _ => members.length + (if isOpen then 1 else 0) > 1
  | .func .. => true
  | _ => false

/-- Whether a type stands for no value. As a result or member of a union it is written `void`. -/
def isVoid : TypeExpr -> Bool
  | .void => true
  | _ => false

def optionalMark (optional : Bool) : String := if optional then "?" else ""

def bracketFunction (type : TypeExpr) (text : String) : String :=
  match type with
  | .func .. => "(" ++ text ++ ")"
  | _ => text

/-- The alternative that leaves a union open. -/
def openAlternative (isOpen : Bool) (base : Option ScalarKind) : List String :=
  if isOpen then ["(" ++ scalarText (base.getD .string) ++ " & \x7b\x7d)"] else []

def alternatives : List String -> String
  | [] => "never"
  | parts => joinWith " | " parts

/-- An object type, given the lines of its fields. -/
def objectText (site : Site) (lines : List String) (isOpen : Bool) (depth : Nat) : String :=
  if lines.isEmpty && !isOpen then "\x7b\x7d"
  else
    "\x7b\n" ++ String.join lines ++
      (if isOpen then site.style.indent (depth + 1) ++ "[k: string]: unknown;\n" else "") ++
      site.style.indent depth ++ "\x7d"

/-- A field of an object type or class, with its comment. -/
def fieldLine (site : Site) (name : String) (optional : Bool) (doc : Documentation)
    (type ending : String) (depth : Nat) : String :=
  comment site.style doc depth ++ site.style.indent depth ++ propertyName name ++
    optionalMark optional ++ ": " ++ type ++ ending ++ "\n"

mutual

/-- A type that starts on a line of a depth. -/
def typeText (site : Site) : TypeExpr -> Nat -> Print String
  | .missing, _ => refuse .missingType
  | .scalar kind, _ => return scalarText kind
  | .literal value, _ => return value.text
  | .union members isOpen base, depth => do
    let parts ← memberTexts site members depth
    return alternatives (parts ++ openAlternative isOpen base)
  | .object fields isOpen, depth => do
    let lines ← fieldLines site ";" fields (depth + 1)
    return objectText site lines isOpen depth
  | .array element, depth => do
    let text ← typeText site element depth
    return (if needsBrackets element then "(" ++ text ++ ")" else text) ++ "[]"
  | .blob _ _ _, _ => useRuntime .blobRef
  | .ref none name, _ => return declaredName name
  | .ref (some unit) name, _ => do
    if unit == site.unit then return declaredName name
    modify (Imports.useWhole · unit)
    return unitAlias unit ++ "." ++ name
  | .bytes, _ => return "Uint8Array"
  | .void, _ => return "undefined"
  | .func params result maybeAsync, depth => do
    let params ← paramTexts site params depth
    let result ← if isVoid result then pure "void" else typeText site result depth
    return "(" ++ joinWith ", " params ++ ") => " ++ result ++
      if maybeAsync then " | Promise<" ++ result ++ ">" else ""
  | .runtime handle, _ => useRuntime handle
  | .predicate param target, depth => do
    return param ++ " is " ++ (← typeText site target depth)

def memberTexts (site : Site) : List TypeExpr -> Nat -> Print (List String)
  | [], _ => return []
  | member :: rest, depth => do
    let text ← if isVoid member then pure "void" else typeText site member depth
    return bracketFunction member text :: (← memberTexts site rest depth)

/-- The fields of an object type or class, a line for each. -/
def fieldLines (site : Site) (ending : String) :
    List (FieldSpec TypeExpr) -> Nat -> Print (List String)
  | [], _ => return []
  | ⟨name, type, optional, doc⟩ :: rest, depth => do
    let text ← within ("field " ++ name) (typeText site type depth)
    return fieldLine site name optional doc text ending depth ::
      (← fieldLines site ending rest depth)

def paramTexts (site : Site) : List (Param TypeExpr) -> Nat -> Print (List String)
  | [], _ => return []
  | ⟨name, type, optional⟩ :: rest, depth => do
    let text ← within ("parameter " ++ name) (typeText site type depth)
    return (declaredName name ++ optionalMark optional ++ ": " ++ text) ::
      (← paramTexts site rest depth)

end

/-- Whether a parameter is an object tagged with one of the tags. -/
def tagCheckText (param : String) (tags : List String) : String :=
  let tests := tags.map fun tag => param ++ ".$type === " ++ quote tag
  let test := joinWith " || " tests
  "typeof " ++ param ++ " === 'object' && " ++ param ++ " !== null && '$type' in " ++ param ++
    " && " ++ if tests.length > 1 then "(" ++ test ++ ")" else test

/-- An object, given the lines of its entries. -/
def objectValueText (site : Site) (lines : List String) (depth : Nat) : String :=
  if lines.isEmpty then "\x7b\x7d"
  else "\x7b\n" ++ String.join lines ++ site.style.indent depth ++ "\x7d"

mutual

/-- A value that starts on a line of a depth. -/
def exprText (site : Site) : Expr -> Nat -> Print String
  | .missing, _ => refuse .missingExpression
  | .ident name, _ => return declaredName name
  | .this, _ => return "this"
  | .str value, _ => return quote value
  | .member receiver name, depth => do
    let receiver ← exprText site receiver depth
    return if isIdentifier name then receiver ++ "." ++ name
      else receiver ++ "[" ++ quote name ++ "]"
  | .call function args, depth => do
    let function ← exprText site function depth
    let args ← argTexts site args depth
    return function ++ "(" ++ joinWith ", " args ++ ")"
  | .construct cls args, depth => do
    let cls ← exprText site cls depth
    let args ← argTexts site args depth
    return "new " ++ cls ++ "(" ++ joinWith ", " args ++ ")"
  | .object entries, depth => do
    let lines ← entryLines site entries (depth + 1)
    return objectValueText site lines depth
  | .json text, depth =>
    match jsonLayout? (site.style.indent depth) (site.style.indent 1) text with
    | some laidOut => return laidOut
    | none => refuse .invalidJson
  | .values subject, depth => do
    return "Object.values(" ++ (← exprText site subject depth) ++ ")"
  | .cast subject type, depth => do
    let subject ← exprText site subject depth
    return subject ++ " as " ++ (← typeText site type depth)
  | .tagCheck param tags, _ => return tagCheckText (declaredName param) tags
  | .runtime handle, _ => useRuntime handle
  | .imported unit name, _ => do
    if unit == site.unit then return declaredName name
    modify (Imports.useName · unit name)
    return name

def argTexts (site : Site) : List Expr -> Nat -> Print (List String)
  | [], _ => return []
  | arg :: rest, depth => do
    let text ← exprText site arg depth
    return text :: (← argTexts site rest depth)

def entryLines (site : Site) : List (Entry Expr) -> Nat -> Print (List String)
  | [], _ => return []
  | ⟨key, value⟩ :: rest, depth => do
    let text ← within ("entry " ++ key) (exprText site value depth)
    return (site.style.indent depth ++ propertyName key ++ ": " ++ text ++ ",\n") ::
      (← entryLines site rest depth)

end

def stmtText (site : Site) (depth : Nat) : Stmt -> Print String
  | .ret value => do
    return "return " ++ (← exprText site value depth)
  | .assign target value => do
    let target ← exprText site target depth
    return target ++ " = " ++ (← exprText site value depth)

def bodyLines (site : Site) (depth : Nat) : List Stmt -> Print (List String)
  | [] => return []
  | stmt :: rest => do
    let text ← stmtText site depth stmt
    return (site.style.indent depth ++ text ++ "\n") :: (← bodyLines site depth rest)

/-- The type of a result after its colon, if it is given. -/
def ascription (site : Site) (depth : Nat) : Option TypeExpr -> Print String
  | none => return ""
  | some type => do
    return ": " ++ (← typeText site type depth)

/-- A function, method or constructor with what stands in front of its parameters. -/
def callableText (site : Site) (head : String) (callable : Callable) (depth : Nat) :
    Print String := do
  let params ← paramTexts site callable.params depth
  let result ← ascription site depth callable.result
  let lines ← bodyLines site (depth + 1) callable.body
  return head ++ "(" ++ joinWith ", " params ++ ")" ++ result ++ " \x7b\n" ++ String.join lines ++
    site.style.indent depth ++ "\x7d\n"

/-- A constructor, if there is one. It has no result. -/
def constructorText (site : Site) : Option Callable -> Print String
  | none => return ""
  | some callable => do
    let text ← within "constructor" <|
      callableText site (site.style.indent 1 ++ "constructor") { callable with result := none } 1
    return "\n" ++ text

/-- The methods of a class, each after an empty line. -/
def methodTexts (site : Site) : List ClassMethod -> Print (List String)
  | [] => return []
  | method :: rest => do
    let text ← within ("method " ++ method.name) <|
      callableText site (site.style.indent 1 ++ propertyName method.name) method.callable 1
    return ("\n" ++ text) :: (← methodTexts site rest)

def declaredText (site : Site) (name : String) : Declared -> Print String
  | .interface fields isOpen => do
    return "export interface " ++ name ++ " " ++ (← typeText site (.object fields isOpen) 0) ++ "\n"
  | .alias type => do
    return "export type " ++ name ++ " = " ++ (← typeText site type 0) ++ "\n"
  | .const type value => do
    let type ← ascription site 0 type
    let value ← exprText site value 0
    return "export const " ++ name ++ type ++ " = " ++ value ++ "\n"
  | .function callable => callableText site ("export function " ++ name) callable 0
  | .cls fields constructor? methods => do
    let fields ← fieldLines site "" fields 1
    let constructor ← constructorText site constructor?
    let methods ← methodTexts site methods
    return "export class " ++ name ++ " \x7b\n" ++ String.join fields ++ constructor ++
      String.join methods ++ "\x7d\n"

def declText (site : Site) (decl : Decl) : Print String := do
  let text ← declaredText site (declaredName decl.name) decl.declared
  return comment site.style decl.doc 0 ++ text

/-- The declarations of a unit. A fault says which one it was found in. -/
def declTexts (site : Site) : List Decl -> Print (List String)
  | [] => return []
  | decl :: rest => do
    let text ← within (decl.declared.kindName ++ " " ++ decl.name) (declText site decl)
    return text :: (← declTexts site rest)

/-- The parts of a file that are not empty, an empty line in front of the last. -/
def assemble (frontmatter : String) (imports decls : List String) : String :=
  let head := (if frontmatter.isEmpty then "" else frontmatter ++ "\n") ++ String.join imports
  if decls.isEmpty then head
  else head ++ (if head.isEmpty then "" else "\n") ++ joinWith "\n" decls

def unitText (style : Style) (unit : SourceUnit) : Except PrintFault String := do
  let (decls, imports) ← (declTexts ⟨style, unit.name⟩ unit.decls).run .none
  return assemble style.frontmatter
    (imports.lines unit.path style.importExtension unit.deps) decls

end LexiconCompiler.TypeScript
