import LexiconCompiler.Schema.Reviewed

set_option autoImplicit false
set_option relaxedAutoImplicit false

/-!
Reading the fields of a mapping. A field of the wrong form is an issue and reads as absent.
-/

namespace LexiconCompiler

open LexiconCompiler.Markup LexiconCompiler.Text

/-- The entries of a mapping and its place. -/
structure Fields where
  entries : List (String × Node)
  path : String

def readString (node : Node) (path : String) : Reviewed (Option String) :=
  match node with
  | .scalar .str text => return some text
  | _ => do
    Reviewed.mismatch path "must be a string" "string" (describe (some node))
    return none

/-- The 64-bit integer that a scalar denotes. -/
def integerOf? : Node -> Option Int
  | .scalar .int text =>
    match decodeScalar .int text with
    | .ok (.int i) => if Number.fitsSigned i then some i else none
    | _ => none
  | .scalar .float text =>
    match decodeScalar .float text with
    | .ok (.float x) => x.toInt?
    | _ => none
  | _ => none

def numberOf? : Node -> Option Binary64
  | .scalar .int text =>
    match decodeScalar .int text with
    | .ok (.int i) => some (Binary64.ofInt i)
    | _ => none
  | .scalar .float text =>
    match decodeScalar .float text with
    | .ok (.float x) => some x
    | _ => none
  | _ => none

def readInteger (node : Node) (path : String) : Reviewed (Option Int) :=
  match integerOf? node with
  | some i => return some i
  | none => do
    Reviewed.mismatch path "must be an integer" "integer" (describe (some node))
    return none

def readNumber (node : Node) (path : String) : Reviewed (Option Binary64) :=
  match numberOf? node with
  | some x => return some x
  | none => do
    Reviewed.mismatch path "must be a number" "number" (describe (some node))
    return none

def readBoolean (node : Node) (path : String) : Reviewed (Option Bool) :=
  match node with
  | .scalar .bool text =>
    match decodeScalar .bool text with
    | .ok (.bool b) => return some b
    | .ok _ => return none
    | .error fault => do
      Reviewed.mismatch path fault.message "boolean" (describe (some node))
      return none
  | _ => do
    Reviewed.mismatch path "must be a boolean" "boolean" (describe (some node))
    return none

/-- Reads the items of a list, which stand at consecutive places; items that read as absent are left
out. -/
def readItems {α : Type} (read : Node -> String -> Reviewed (Option α)) (path : String) :
    Nat -> List Node -> Reviewed (List α)
  | _, [] => return []
  | index, node :: rest => do
    let item ← read node (indexPath path index)
    let items ← readItems read path (index + 1) rest
    return item.toList ++ items

def readStrings (node : Node) (path : String) : Reviewed (List String) :=
  match node with
  | .sequence items => readItems readString path 0 (items.map Node.bare)
  | _ => do
    Reviewed.mismatch path "must be an array of strings" "array" (describe (some node))
    return []

def readFields (node : Node) (path : String) : Reviewed (Option Fields) :=
  match node with
  | .mapping entries => return some ⟨Node.textEntries entries, path⟩
  | _ => do
    Reviewed.mismatch path "must be an object" "object" (describe (some node))
    return none

namespace Fields

/-- The first entry under a key. -/
def get? (f : Fields) (key : String) : Option Node := f.entries.lookup key

def place (f : Fields) (key : String) : String := joinPath f.path key

/-- The first entry of each key in source order; every repetition is an issue. -/
def pairsFrom (f : Fields) (seen : List String) :
    List (String × Node) -> Reviewed (List (String × Node))
  | [] => return []
  | (key, node) :: rest =>
    if seen.contains key then do
      Reviewed.fault (f.place key) "duplicate key"
      f.pairsFrom seen rest
    else do
      let pairs ← f.pairsFrom (key :: seen) rest
      return (key, node) :: pairs

/-- The first entry of each key in source order; every repetition is an issue. -/
def pairs (f : Fields) : Reviewed (List (String × Node)) := f.pairsFrom [] f.entries

def optional {α : Type} (f : Fields) (read : Node -> String -> Reviewed (Option α)) (key : String) :
    Reviewed (Option α) :=
  match f.get? key with
  | none => return none
  | some node => read node (f.place key)

def requiredString (f : Fields) (key : String) : Reviewed (Option String) :=
  match f.get? key with
  | none => do
    Reviewed.mismatch (f.place key) "required" "string" (describe none)
    return none
  | some node => readString node (f.place key)

def textOr (f : Fields) (key : String) : Reviewed String := do
  let text ← f.optional readString key
  return text.getD ""

def length (f : Fields) (key : String) : Reviewed (Option Nat) := do
  match ← f.optional readInteger key with
  | none => return none
  | some i =>
    if i < 0 then
      Reviewed.mismatch (f.place key) "must not be negative" "non-negative integer"
        (describe (f.get? key))
      return none
    else return some i.toNat

def strings (f : Fields) (key : String) : Reviewed (List String) :=
  match f.get? key with
  | none => return []
  | some node => readStrings node (f.place key)

def list? (f : Fields) (key : String) : Reviewed (Option (List Node)) :=
  match f.get? key with
  | none => return none
  | some (.sequence items) => return some (items.map Node.bare)
  | some node => do
    Reviewed.mismatch (f.place key) "must be an array" "array" (describe (some node))
    return none

def values {α : Type} (f : Fields) (read : Node -> String -> Reviewed (Option α)) (key : String) :
    Reviewed (List α) := do
  match ← f.list? key with
  | none => return []
  | some items => readItems read (f.place key) 0 items

end Fields

end LexiconCompiler
