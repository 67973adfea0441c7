import LexiconCompiler.Markup.Scalar

set_option autoImplicit false
set_option relaxedAutoImplicit false

/-!
Document trees. A mapping keeps the order of its entries and repeated keys. An alias stands for the
tree that has its name. What a text gives is a graph, as an alias may stand inside the tree that it
stands for. That tree is then one without an end, of which a part is written out; an alias without a
target marks where the rest is left out.
-/

namespace LexiconCompiler.Markup

/-- What a key is besides its text. -/
inductive KeyForm where
  | scalar (tag : Tag)
  | alias (target : Option (Tag × String))
  | sequence
  | mapping
  deriving DecidableEq, Repr

/-- A key. Its text is that of a scalar or the name of an alias, and empty for a collection. -/
structure Key where
  text : String
  form : KeyForm
  deriving DecidableEq, Repr

/-- A document tree. An alias has no target where the tree around it goes on without an end. -/
inductive Node where
  | scalar (tag : Tag) (text : String)
  | sequence (items : List Node)
  | mapping (entries : List (Key × Node))
  | alias (name : String) (target : Option Node)
  deriving Repr

namespace Node

def empty : Node := .scalar .null ""

/-- The tree that an alias stands for, and any other tree itself. -/
def bare : Node -> Node
  | .alias _ (some target) => target
  | node => node

/-- The entries of a mapping by the texts of their keys. -/
def textEntries (entries : List (Key × Node)) : List (String × Node) :=
  entries.map fun (key, node) => (key.text, node.bare)

end Node

/-- A tree as a text gives it. An alias has the number of the tree that it stands for. -/
inductive Outline where
  | scalar (tag : Tag) (text : String)
  | sequence (items : List Outline)
  | mapping (entries : List (Key × Outline))
  | alias (name : String) (number : Nat)

namespace Outline

def empty : Outline := .scalar .null ""

def scalar? : Outline -> Option (Tag × String)
  | .scalar tag text => some (tag, text)
  | _ => none

/-- A tree as a key, given the trees that have numbers. -/
def toKey (named : List (Nat × Outline)) : Outline -> Key
  | .scalar tag text => ⟨text, .scalar tag⟩
  | .sequence _ => ⟨"", .sequence⟩
  | .mapping _ => ⟨"", .mapping⟩
  | .alias name number => ⟨name, .alias ((named.lookup number).bind scalar?)⟩

mutual

/-- A tree with its aliases resolved. -/
def toNode (targets : List (Nat × Node)) : Outline -> Node
  | .scalar tag text => .scalar tag text
  | .sequence items => .sequence (itemNodes targets items)
  | .mapping entries => .mapping (entryNodes targets entries)
  | .alias name number => .alias name (targets.lookup number)

def itemNodes (targets : List (Nat × Node)) : List Outline -> List Node
  | [] => []
  | item :: rest => toNode targets item :: itemNodes targets rest

def entryNodes (targets : List (Nat × Node)) : List (Key × Outline) -> List (Key × Node)
  | [] => []
  | (key, value) :: rest => (key, toNode targets value) :: entryNodes targets rest

end

end Outline

/-- What a text gives: the trees that have names, by number, and the tree of the document. -/
structure TextGraph where
  named : List (Nat × Outline)
  root : Outline

namespace TextGraph

/-- The trees that have names, with so many aliases written out one inside the other. -/
def targets (g : TextGraph) : Nat -> List (Nat × Node)
  | 0 => []
  | depth + 1 =>
    let inner := g.targets depth
    g.named.map fun (number, outline) => (number, outline.toNode inner)

/-- The tree of the document, with so many aliases written out one inside the other. -/
def unfold (g : TextGraph) (depth : Nat) : Node := g.root.toNode (g.targets depth)

end TextGraph

end LexiconCompiler.Markup
