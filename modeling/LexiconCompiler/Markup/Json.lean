import LexiconCompiler.Markup.Node
import LexiconCompiler.Text.JsonString

set_option autoImplicit false
set_option relaxedAutoImplicit false

/-!
Document trees as JSON text without blanks, entries in their order.
-/

namespace LexiconCompiler.Markup

open LexiconCompiler.Text

/-- Why a tree has no JSON form. A tree without an end has none because writing it does not come to
an end: that is no error that a caller gets. -/
inductive JsonFault where
  | undecodable (fault : ScalarFault)
  | notFinite (value : Binary64)
  | farZone
  | endless
  deriving DecidableEq, Repr

def Scalar.toJson : Scalar -> Except JsonFault String
  | .null => .ok "null"
  | .bool value => .ok (if value then "true" else "false")
  | .int value => .ok (toString value)
  | .float (.finite negative mantissa exponent) =>
    .ok (Binary64.format .wire (.finite negative mantissa exponent))
  | .float value => .error (.notFinite value)
  | .text value => .ok (jsonString value)
  | .time stamp => if stamp.zoneInRange then .ok (jsonString stamp.text) else .error .farZone

def scalarJson (tag : Tag) (text : String) : Except JsonFault String :=
  match decodeScalar tag text with
  | .ok value => value.toJson
  | .error fault => .error (.undecodable fault)

mutual

def Node.toJson : Node -> Except JsonFault String
  | .scalar tag text => scalarJson tag text
  | .sequence items => do
    let parts ← itemsJson items
    return "[" ++ joinWith "," parts ++ "]"
  | .mapping entries => do
    let parts ← entriesJson entries
    return "\x7b" ++ joinWith "," parts ++ "\x7d"
  | .alias _ (some target) => target.toJson
  | .alias _ none => .error .endless

def itemsJson : List Node -> Except JsonFault (List String)
  | [] => .ok []
  | node :: rest => do
    let part ← node.toJson
    let parts ← itemsJson rest
    return part :: parts

/-- The JSON forms of the entries of a mapping. -/
def entriesJson : List (Key × Node) -> Except JsonFault (List String)
  | [] => .ok []
  | (key, node) :: rest => do
    let part ← node.toJson
    let parts ← entriesJson rest
    return (jsonString key.text ++ ":" ++ part) :: parts

end

end LexiconCompiler.Markup
