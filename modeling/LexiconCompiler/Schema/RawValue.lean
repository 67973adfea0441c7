import LexiconCompiler.Markup.RawText
import LexiconCompiler.Schema.Reader

set_option autoImplicit false
set_option relaxedAutoImplicit false

/-!
Documents given as plain values instead of text. Keys have no order of their own, so they are put in
natural order; the value is written as text and read back.
-/

namespace LexiconCompiler

namespace Document

def ofValue (value : RawValue) : Except Problem Document :=
  match value with
  | .null => .error (.noValue "")
  | value =>
    match Markup.Node.parse? value.toText with
    | none => .error (.unreadableValue "")
    | some node => ofNode node.bare

/-- Reads values in order up to the first one that is no document; a problem without a document
names the place of the value. -/
def ofValuesFrom : Nat -> List RawValue -> Except Problem (List Document)
  | _, [] => .ok []
  | index, value :: rest =>
    match ofValue value with
    | .error problem => .error (problem.labelled ("input " ++ toString index))
    | .ok document => (ofValuesFrom (index + 1) rest).map (document :: ·)

def ofValues (values : List RawValue) : Except Problem (List Document) := ofValuesFrom 0 values

end Document

end LexiconCompiler
