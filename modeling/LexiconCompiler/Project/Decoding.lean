import LexiconCompiler.Markup.Node

set_option autoImplicit false
set_option relaxedAutoImplicit false

/-!
Reading the fields of a record from a document tree. A mapping may lend its entries to another one
under a merge key; what a mapping has of its own goes before what it is lent, and of several lenders
the earlier one goes first. A tree that is mostly aliases is refused.
-/

namespace LexiconCompiler

open LexiconCompiler.Markup

/-- How many trees were visited, in all and inside aliases, and how many aliases are open. -/
structure Usage where
  visited : Nat
  aliased : Nat
  depth : Nat

namespace Usage

def none : Usage := ⟨0, 0, 0⟩

/-- Up to how many visits the share of aliases may be 99 in a hundred. -/
def fewVisits : Nat := 400000

/-- From how many visits on the share of aliases may be 10 in a hundred. -/
def manyVisits : Nat := 4000000

/-- Whether a share of aliases is too large; between the two limits it may be the less, the more
visits there are. -/
def isExcessive (u : Usage) : Bool :=
  100 < u.aliased && 1000 < u.visited &&
    (if u.visited ≤ fewVisits then 99 * u.visited < 100 * u.aliased
     else if manyVisits ≤ u.visited then 10 * u.visited < 100 * u.aliased
     else
       let span := manyVisits - fewVisits
       (99 * span - 89 * (u.visited - fewVisits)) * u.visited < 100 * span * u.aliased)

end Usage

/-- Readers that count their visits. -/
abbrev Decoding := StateT Usage Option

namespace Decoding

variable {α : Type}

def visit : Decoding Unit := do
  modify fun u => { u with
    visited := u.visited + 1, aliased := if u.depth == 0 then u.aliased else u.aliased + 1 }
  if (← get).isExcessive then failure

def inside (read : Decoding α) : Decoding α := do
  visit
  modify fun u => { u with depth := u.depth + 1 }
  let result ← read
  modify fun u => { u with depth := u.depth - 1 }
  return result

/-- Reads a tree, or the tree that an alias stands for. -/
def visiting (read : Node -> Decoding α) : Node -> Decoding α
  | .alias _ (some target) => inside (visit *> read target)
  | .alias _ none => failure
  | node => visit *> read node

def scalarValue (tag : Tag) (text : String) : Decoding Scalar :=
  match decodeScalar tag text with
  | .ok value => return value
  | .error _ => failure

/-- A text, which every scalar but a null gives as it is written and binary text by its bytes. -/
def scalarText (tag : Tag) (text : String) : Decoding (Option String) := do
  match ← scalarValue tag text with
  | .null => return none
  | .text value => return some value
  | _ => return some text

/-- The name that a key gives; a null gives none, and a collection is no name. -/
def keyName (key : Key) : Decoding (Option String) :=
  match key.form with
  | .scalar tag => visit *> scalarText tag key.text
  | .alias (some (tag, text)) => inside (visit *> scalarText tag text)
  | _ => failure

/-- Whether two keys are the same in form and text. -/
def sameKey (a b : Key) : Bool :=
  a.text == b.text &&
    (match a.form, b.form with
     | .scalar _, .scalar _ => true
     | .alias _, .alias _ => true
     | .sequence, .sequence => true
     | .mapping, .mapping => true
     | _, _ => false)

/-- Whether no key of a mapping is there twice. -/
def keysDiffer : List (Key × Node) -> Bool
  | [] => true
  | (key, _) :: rest => !(rest.any fun (other, _) => sameKey key other) && keysDiffer rest

/-- Whether a key lends the entries of its value. -/
def isMerge (key : Key) : Bool := key.text == "<<" && key.form == .scalar .merge

/-- How the field of a name changes a record; names without a field are passed over. -/
abbrev RecordFields (α : Type) := String -> Option (α -> Node -> Decoding α)

/-- Sets the fields of a mapping itself. A field is set once; when its entries are lent, the names
that were met before are passed over. The names met so far are returned too. -/
def ownFields (fields : RecordFields α) (lent : Bool) :
    List (Key × Node) -> List String -> α -> Decoding (α × List String)
  | [], met, record => return (record, met)
  | (key, node) :: rest, met, record => do
    if isMerge key then ownFields fields lent rest met record
    else
      match ← keyName key with
      | none => ownFields fields lent rest met record
      | some name =>
        match fields name with
        | none => ownFields fields lent rest (name :: met) record
        | some set =>
          if met.contains name then
            if lent then ownFields fields lent rest met record else failure
          else
            let record ← set record node
            ownFields fields lent rest (name :: met) record

/-- Visits the keys of a mapping once more. -/
def revisitKeys : List (Key × Node) -> Decoding Unit
  | [] => return ()
  | (key, _) :: rest => do
    let _ ← keyName key
    revisitKeys rest

mutual

/-- Sets the fields of a mapping that lends its entries. -/
def lentMapping (fields : RecordFields α) : Node -> List String -> α -> Decoding (α × List String)
  | .mapping entries, met, record => do
    visit
    if keysDiffer entries then
      let (record, met) ← ownFields fields true entries met record
      lentEntries fields entries met record
    else failure
  | .alias _ (some target), met, record => inside (lentMapping fields target met record)
  | _, _, _ => failure

/-- Sets the fields that the merge key of a mapping lends. -/
def lentEntries (fields : RecordFields α) :
    List (Key × Node) -> List String -> α -> Decoding (α × List String)
  | [], met, record => return (record, met)
  | (key, node) :: rest, met, record =>
    if isMerge key then lentNode fields node met record else lentEntries fields rest met record

/-- Sets the fields that a mapping or a list of mappings lends. -/
def lentNode (fields : RecordFields α) : Node -> List String -> α -> Decoding (α × List String)
  | .sequence items, met, record => lentItems fields items met record
  | .mapping entries, met, record => lentMapping fields (.mapping entries) met record
  | .alias name target, met, record => lentMapping fields (.alias name target) met record
  | .scalar _ _, _, _ => failure

/-- Sets the fields that a list of mappings lends. -/
def lentItems (fields : RecordFields α) :
    List Node -> List String -> α -> Decoding (α × List String)
  | [], met, record => return (record, met)
  | node :: rest, met, record => do
    let (record, met) ← lentMapping fields node met record
    lentItems fields rest met record

end

/-- Sets the fields of a record. A null leaves everything as it is. -/
def recordFields (fields : RecordFields α) (record : α) : Node -> Decoding α
  | .mapping entries => do
    if keysDiffer entries then
      let (record, met) ← ownFields fields false entries [] record
      if entries.any fun (key, _) => isMerge key then
        revisitKeys entries
        let (record, _) ← lentEntries fields entries met record
        return record
      else return record
    else failure
  | .scalar tag text => do
    match ← scalarValue tag text with
    | .null => return record
    | _ => failure
  | _ => failure

end Decoding

end LexiconCompiler
