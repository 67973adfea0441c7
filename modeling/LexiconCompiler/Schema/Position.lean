import LexiconCompiler.Schema.Kind

set_option autoImplicit false
set_option relaxedAutoImplicit false

/-!
Where a type stands, and which kinds may stand there.
-/

namespace LexiconCompiler

/-- The place of a type in a document. -/
inductive Position where
  | definition
  | property
  | item
  | parameter
  | parameterItem
  | schema
  deriving DecidableEq, Repr

namespace Position

def allows : Position -> Kind -> Bool
  | .definition, kind => kind != .ref && kind != .union && kind != .params
  | .property, kind =>
    kind.isPrimitive || kind.isBlob || kind == .array || kind == .ref || kind == .union
  | .item, kind => kind.isPrimitive || kind.isBlob || kind == .ref || kind == .union
  | .parameter, kind => kind.isPrimitive || kind == .array
  | .parameterItem, kind => kind.isPrimitive
  | .schema, kind => kind == .object || kind == .ref || kind == .union

/-- What an issue says is expected at a place. -/
def expected : Position -> String
  | .definition => "a definition kind"
  | .property => "primitive, blob, array, ref or union"
  | .item => "primitive, blob, ref or union"
  | .parameter => "primitive or array of primitives"
  | .parameterItem => "primitive"
  | .schema => "object, ref or union"

/-- Whether a bare string stands for a reference there, and a list of strings for a union. -/
def shorthand : Position -> Bool
  | .property => true
  | .item => true
  | .schema => true
  | _ => false

def ofItems : Position -> Position
  | .parameter => .parameterItem
  | _ => .item

end Position

end LexiconCompiler
