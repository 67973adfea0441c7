import LexiconCompiler.Casing
import LexiconCompiler.Code.Unit
import LexiconCompiler.TypeScript.Style

set_option autoImplicit false
set_option relaxedAutoImplicit false

/-!
What a file imports: libraries, and other files of the same output.
-/

namespace LexiconCompiler.TypeScript

open LexiconCompiler.Code
open LexiconCompiler.Text

/-- How something that a library supplies is imported and spelled. -/
structure Binding where
  source : String
  name : String
  /-- The local name, if it is another one. -/
  localName : Option String
  isDefault : Bool
  /-- The member of the binding that is meant. -/
  member : Option String
  deriving DecidableEq, Repr

def libraries : List String := ["express", "@atproto/xrpc-server", "@atproto/lexicon"]

def binding? : RuntimeHandle -> Option Binding
  | .request => some ⟨"express", "express", none, true, some "Request"⟩
  | .response => some ⟨"express", "express", none, true, some "Response"⟩
  | .server => some ⟨"@atproto/xrpc-server", "Server", some "XrpcServer", false, none⟩
  | .serverOptions => some ⟨"@atproto/xrpc-server", "Options", some "XrpcOptions", false, none⟩
  | .createServer =>
    some ⟨"@atproto/xrpc-server", "createServer", some "createXrpcServer", false, none⟩
  | .validationResult => some ⟨"@atproto/lexicon", "ValidationResult", none, false, none⟩
  | .validator => some ⟨"@atproto/lexicon", "Lexicons", none, false, none⟩
  | .schema => some ⟨"@atproto/lexicon", "LexiconDoc", none, false, none⟩
  | .blobRef => some ⟨"@atproto/lexicon", "BlobRef", none, false, none⟩
  | .other _ => none

namespace Binding

def here (b : Binding) : String := b.localName.getD b.name

/-- What is written where the binding is used. -/
def use (b : Binding) : String :=
  match b.member with
  | some member => b.here ++ "." ++ member
  | none => b.here

/-- What is written in the list of an import. -/
def item (b : Binding) : String :=
  match b.localName with
  | some localName => b.name ++ " as " ++ localName
  | none => b.name

end Binding

/-- What a file uses, each part in order of first use. -/
structure Imports where
  bindings : List Binding
  units : List String
  /-- Names imported one by one, with their units. -/
  named : List (String × String)
  /-- Units imported as a whole. -/
  whole : List String
  deriving DecidableEq, Repr

def appendNew {α : Type} [BEq α] (xs : List α) (x : α) : List α :=
  if xs.contains x then xs else xs ++ [x]

/-- The local name of a unit that is imported as a whole. -/
def unitAlias (unit : String) : String := Casing.title unit

namespace Imports

def none : Imports := ⟨[], [], [], []⟩

def useBinding (i : Imports) (b : Binding) : Imports :=
  { i with bindings := appendNew i.bindings b }

def useWhole (i : Imports) (unit : String) : Imports :=
  { i with units := appendNew i.units unit, whole := appendNew i.whole unit }

def useName (i : Imports) (unit name : String) : Imports :=
  { i with units := appendNew i.units unit, named := appendNew i.named (unit, name) }

def namesOf (i : Imports) (unit : String) : List String :=
  (i.named.filter fun (u, _) => u == unit).map Prod.snd

/-- The units in the order they are imported: known needs first. -/
def unitOrder (i : Imports) (deps : List String) : List String :=
  let known := deps.filter i.units.contains
  known ++ i.units.filter fun unit => !known.contains unit

end Imports

/-- How many leading entries two lists share. -/
def sharedLength : List String -> List String -> Nat
  | a :: as, b :: bs => if a == b then sharedLength as bs + 1 else 0
  | _, _ => 0

/-- How a file at the path `source` names the file at the path `target`. -/
def specifier (source target : String) : String :=
  let folder := (split '/' source).dropLast
  let goal := split '/' target
  let shared := sharedLength folder goal.dropLast
  let rel := joinWith "/" (List.replicate (folder.length - shared) ".." ++ goal.drop shared)
  if startsWith rel.toList ['.', '.'] then rel else "./" ++ rel

def namedImport (names : List String) (source : String) : List String :=
  if names.isEmpty then []
  else ["import \x7b " ++ joinWith ", " names ++ " \x7d from '" ++ source ++ "'\n"]

def libraryImports (bindings : List Binding) (library : String) : List String :=
  let used := bindings.filter fun b => b.source == library
  let defaults := distinct ((used.filter Binding.isDefault).map Binding.name)
  defaults.map (fun name => "import " ++ name ++ " from '" ++ library ++ "'\n") ++
    namedImport (distinct ((used.filter fun b => !b.isDefault).map Binding.item)) library

def unitImports (i : Imports) (path ext unit : String) : List String :=
  let source := specifier path (pathOf unit) ++ ext
  namedImport (i.namesOf unit) source ++
    if i.whole.contains unit then
      ["import * as " ++ unitAlias unit ++ " from '" ++ source ++ "'\n"]
    else []

/-- All imports of a file: libraries, then units. -/
def Imports.lines (i : Imports) (path ext : String) (deps : List String) : List String :=
  libraries.flatMap (libraryImports i.bindings) ++
    (i.unitOrder deps).flatMap (unitImports i path ext)

end LexiconCompiler.TypeScript
