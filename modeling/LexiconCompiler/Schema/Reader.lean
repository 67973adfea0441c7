import LexiconCompiler.Markup.Reader
import LexiconCompiler.Problem
import LexiconCompiler.Schema.Consistency
import LexiconCompiler.Schema.TypeReader

set_option autoImplicit false
set_option relaxedAutoImplicit false

/-!
Documents from trees and texts. A document is valid if it could be read without an issue and then
breaks no rule; otherwise all issues are reported.
-/

namespace LexiconCompiler

/-- Reads a document and checks it if nothing was amiss so far. -/
def reviewDraft (node : Markup.Node) : Reviewed Draft :=
  let read := readDraft node
  if read.issues.isEmpty then
    let checked := read.value.check
    ⟨read.value, checked.issues, read.warnings ++ checked.warnings⟩
  else read

namespace Document

/-- The document that a tree describes. -/
def ofNode (node : Markup.Node) : Except Problem Document :=
  let reviewed := reviewDraft node
  match reviewed.issues, Nsid.parse reviewed.value.id with
  | [], .ok nsid => .ok ⟨reviewed.value, "", reviewed.warnings, nsid, node⟩
  | issues, _ => .error (.invalidDocument reviewed.value.id issues)

def parse (text : String) : Except Problem Document :=
  match Markup.Node.parse? text with
  | none => .error (.unreadable "")
  | some node => ofNode node.bare

end Document

end LexiconCompiler
