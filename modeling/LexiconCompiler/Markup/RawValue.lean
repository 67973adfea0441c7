import LexiconCompiler.Number.Layout
import LexiconCompiler.Text.NaturalOrder

set_option autoImplicit false
set_option relaxedAutoImplicit false

/-!
Plain values, from which documents can be made instead of from text.
-/

namespace LexiconCompiler

/-- A plain value. -/
inductive RawValue where
  | null
  | bool (value : Bool)
  | number (value : Binary64)
  | string (value : String)
  | array (items : List RawValue)
  | object (members : List (String × RawValue))
  deriving Inhabited, Repr

/-- The members of an object in natural order of their keys. -/
def sortMembers (members : List (String × RawValue)) : List (String × RawValue) :=
  members.mergeSort fun a b => !Text.naturalLt b.1 a.1

mutual

/-- A value with the members of all its objects in natural order. -/
def RawValue.sorted : RawValue -> RawValue
  | .array items => .array (sortedItems items)
  | .object members => .object (sortMembers (sortedMembers members))
  | value => value

/-- The items of an array, each in order. -/
def sortedItems : List RawValue -> List RawValue
  | [] => []
  | value :: rest => value.sorted :: sortedItems rest

/-- The members of an object, each in order. -/
def sortedMembers : List (String × RawValue) -> List (String × RawValue)
  | [] => []
  | (key, value) :: rest => (key, value.sorted) :: sortedMembers rest

end

end LexiconCompiler
