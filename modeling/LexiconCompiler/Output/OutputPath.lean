import LexiconCompiler.Files.Path
import LexiconCompiler.Text.Quoted

set_option autoImplicit false
set_option relaxedAutoImplicit false

/-!
Paths that generated files may have: relative, clean and without a way up.
-/

namespace LexiconCompiler.OutputPath

open LexiconCompiler.Text

/-- Why a path is refused. -/
inductive Fault where
  | empty
  | absolute
  | backslash
  | traversal
  | unclean (expected actual : String)
  deriving DecidableEq, Repr

def Fault.message : Fault -> String
  | .empty => "path is empty"
  | .absolute => "absolute paths not allowed"
  | .backslash => "path must use / as separator"
  | .traversal => "path traversal not allowed"
  | .unclean expected actual =>
    "path is not clean (expected " ++ quote expected ++ ", got " ++ quote actual ++ ")"

/-- Whether a path starts with the letter of a drive. -/
def hasDrive (path : String) : Bool :=
  match path.toList with
  | letter :: ':' :: _ => isAsciiLetter letter
  | _ => false

def fault? (path : String) : Option Fault :=
  if path.isEmpty then some .empty
  else if Path.isAbsolute path || hasDrive path then some .absolute
  else if path.toList.contains '\\' then some .backslash
  else if (split '/' path).contains ".." then some .traversal
  else if Path.clean path != path then some (.unclean (Path.clean path) path)
  else none

end LexiconCompiler.OutputPath
