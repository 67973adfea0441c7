import LexiconCompiler.Namespace

set_option autoImplicit false
set_option relaxedAutoImplicit false

/-!
The namespaces of a batch as they are kept while documents come in: nodes in one list that refer to
each other by position, the position of every path, and the positions of the outermost nodes.
-/

namespace LexiconCompiler

open LexiconCompiler.Text

/-- A method, under its name in the namespace that it lives in. -/
structure LeafMethod where
  name : String
  document : Document

/-- An authority prefix. Those right inside it are given by their positions. -/
structure ArenaNode where
  segment : String
  path : String
  children : List Nat
  methods : List LeafMethod

structure NamespaceArena where
  nodes : List ArenaNode
  /-- The position of each path; an entry hides those after it. -/
  index : List (String × Nat)
  roots : List Nat

namespace NamespaceArena

def empty : NamespaceArena := ⟨[], [], []⟩

def nodesAt (t : NamespaceArena) (ids : List Nat) : List ArenaNode :=
  ids.filterMap fun id => t.nodes[id]?

/-- The positions right inside a node, or the outermost ones. -/
def inside (t : NamespaceArena) : Option Nat -> List Nat
  | none => t.roots
  | some id => (t.nodes[id]?.map ArenaNode.children).getD []

/-- Puts a position behind those right inside a node, or behind the outermost ones. -/
def link (t : NamespaceArena) (id : Nat) : Option Nat -> NamespaceArena
  | none => { t with roots := t.roots ++ [id] }
  | some parent =>
    { t with nodes := t.nodes.modify parent fun n => { n with children := n.children ++ [id] } }

/-- A new node, unless it differs in case only from one beside it. -/
def add (t : NamespaceArena) (document : String) (parent : Option Nat) (segment path : String) :
    Except Problem (NamespaceArena × Nat) :=
  match (t.nodesAt (t.inside parent)).find? fun sibling =>
      lower sibling.segment == lower segment with
  | some sibling => .error (.foldedNamespace document path sibling.path)
  | none =>
    let id := t.nodes.length
    let grown : NamespaceArena :=
      ⟨t.nodes ++ [⟨segment, path, [], []⟩], (path, id) :: t.index, t.roots⟩
    .ok (grown.link id parent, id)

/-- Goes on from a prefix to the next one, which is added if its path is not known. -/
def enter (document : String) (state : NamespaceArena × Option Nat) (segments : List String) :
    Except Problem (NamespaceArena × Option Nat) :=
  let path := joinWith "." segments
  match state.1.index.lookup path with
  | some id => .ok (state.1, some id)
  | none => do
    let (t, id) ← state.1.add document state.2 (segments.getLastD "") path
    return (t, some id)

def addMethod (t : NamespaceArena) (document : Document) : Option Nat -> NamespaceArena
  | none => t
  | some id =>
    { t with nodes := t.nodes.modify id fun n =>
        { n with methods := n.methods ++ [⟨document.nsid.name, document⟩] } }

/-- Adds the authority of a document and, if it is a method, the method. -/
def insert (t : NamespaceArena) (document : Document) : Except Problem NamespaceArena := do
  let (t, innermost) ←
    (beginnings document.nsid.authoritySegments).foldlM (enter document.id) (t, none)
  return if document.isMethod then t.addMethod document innermost else t

/-- The first method that is named like a member before it. -/
def clash? (scope : String) : List (String × String) -> List LeafMethod -> Option Problem
  | _, [] => none
  | taken, method :: rest =>
    let key := memberKey method.name
    match taken.lookup key with
    | some other => some (.memberClash method.document.id other scope)
    | none => clash? scope ((key, method.document.id) :: taken) rest

def memberProblem? (t : NamespaceArena) (n : ArenaNode) : Option Problem :=
  clash? n.path
    ((t.nodesAt n.children).map fun child => (memberKey child.segment, child.path)).reverse
    n.methods

def build (documents : List Document) : Except Problem NamespaceArena := do
  let t ← documents.foldlM insert empty
  match t.nodes.findSome? t.memberProblem? with
  | some problem => .error problem
  | none => .ok t

def lookup? (t : NamespaceArena) (path : String) : Option ArenaNode :=
  (t.index.lookup path).bind fun id => t.nodes[id]?

def methodCount (t : NamespaceArena) : Nat :=
  t.nodes.foldl (fun count n => count + n.methods.length) 0

/-- The positions that are visited from some on, with their depths; none if they go deeper than a
number of levels. -/
def visit (t : NamespaceArena) : Nat -> Nat -> List Nat -> Option (List (Nat × Nat))
  | 0, _, ids => if ids.isEmpty then some [] else none
  | levels + 1, depth, ids => do
    let parts ← ids.mapM fun id => do
      let n ← t.nodes[id]?
      let below ← t.visit levels (depth + 1) n.children
      return (id, depth) :: below
    return parts.flatten

/-- All positions, each before those inside. No chain of nodes is longer than there are nodes. -/
def walk (t : NamespaceArena) : Option (List (Nat × Nat)) := t.visit t.nodes.length 0 t.roots

end NamespaceArena

end LexiconCompiler
