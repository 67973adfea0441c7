import LexiconCompiler.Code.TypeExpr
import LexiconCompiler.TypeScript.Style

set_option autoImplicit false
set_option relaxedAutoImplicit false

/-!
Comments in front of declarations and fields.
-/

namespace LexiconCompiler.TypeScript

open LexiconCompiler.Code
open LexiconCompiler.Text

/-- Breaks up every end of comment. -/
def escapeCommentList : List Char -> List Char
  | '*' :: '/' :: rest => '*' :: '\\' :: '/' :: escapeCommentList rest
  | c :: rest => c :: escapeCommentList rest
  | [] => []

def escapeComment (s : String) : String := String.ofList (escapeCommentList s.toList)

/-- The lines of a comment: those of the body without blanks around them, then the notes. -/
def commentLines (doc : Documentation) : List String :=
  let body := trim doc.body
  (if body.isEmpty then [] else (split '\n' body).map trim) ++ doc.notes

def commentLine (indent line : String) : String :=
  indent ++ " *" ++ (if line.isEmpty then "" else " " ++ escapeComment line) ++ "\n"

/-- The comment of a declaration or field, or nothing if there is nothing to say. -/
def comment (style : Style) (doc : Documentation) (depth : Nat) : String :=
  if style.omitComments || doc.isZero then ""
  else
    let indent := style.indent depth
    match commentLines doc with
    | [line] => indent ++ "/** " ++ escapeComment line ++ " */\n"
    | lines =>
      indent ++ "/**\n" ++ String.join (lines.map (commentLine indent)) ++ indent ++ " */\n"

end LexiconCompiler.TypeScript
