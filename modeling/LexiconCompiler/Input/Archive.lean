import LexiconCompiler.Text.Basic

set_option autoImplicit false
set_option relaxedAutoImplicit false

/-!
Archives of text files. A line of two hyphens, a name and two hyphens starts a file; what stands
before the first such line belongs to no file.
-/

namespace LexiconCompiler.Archive

open LexiconCompiler.Text

/-- A file of an archive. -/
structure Member where
  name : String
  content : String
  deriving DecidableEq, Repr

/-- The name in a line that starts a file. -/
def marker? (line : List Char) : Option String :=
  if line.length ≥ 6 && startsWith line ['-', '-', ' '] &&
      startsWith line.reverse ['-', '-', ' '] then
    let name := trimList ((line.drop 3).take (line.length - 6))
    if name.isEmpty then none else some (String.ofList name)
  else none

/-- The lines of a text without their ends. -/
def lines (text : List Char) : List (List Char) :=
  match (splitList '\n' text).reverse with
  | [] :: rest => rest.reverse
  | rest => rest.reverse

/-- The lines in front of the first file, and the files. Every line gets an end. -/
def gather : List (List Char) -> String × List Member
  | [] => ("", [])
  | line :: rest =>
    let (text, members) := gather rest
    match marker? line with
    | some name => ("", ⟨name, text⟩ :: members)
    | none => (String.ofList line ++ "\n" ++ text, members)

def members (text : String) : List Member := (gather (lines text.toList)).2

end LexiconCompiler.Archive
