import LexiconCompiler.Casing
import LexiconCompiler.Problem
import LexiconCompiler.Schema.Document

set_option autoImplicit false
set_option relaxedAutoImplicit false

/-!
The namespaces of a batch: one for each authority prefix of its documents, with the methods that
live there. They are listed in the order they were first met; which namespace lies in which follows
from their segments.
-/

namespace LexiconCompiler

open LexiconCompiler.Text

/-- An authority prefix and the methods whose authority it is. -/
structure Namespace where
  segments : List String
  methods : List Nsid

namespace Namespace

def path (n : Namespace) : String := joinWith "." n.segments

def segment (n : Namespace) : String := n.segments.getLastD ""

/-- The segments of the namespace around this one. -/
def parent (n : Namespace) : List String := n.segments.dropLast

end Namespace

/-- The namespaces of a batch. -/
structure NamespaceTree where
  namespaces : List Namespace

/-- What decides whether two members of a namespace have one name. -/
def memberKey (name : String) : String := lower (Casing.camel name)

/-- All non-empty beginnings of a list, the shortest first. -/
def beginnings (segments : List String) : List (List String) :=
  (List.range segments.length).map fun i => segments.take (i + 1)

namespace NamespaceTree

def empty : NamespaceTree := ⟨[]⟩

/-- The namespaces right inside the one of these segments. -/
def childrenOf (t : NamespaceTree) (segments : List String) : List Namespace :=
  t.namespaces.filter fun child => child.parent == segments

def roots (t : NamespaceTree) : List Namespace := t.childrenOf []

def lookup? (t : NamespaceTree) (path : String) : Option Namespace :=
  t.namespaces.find? fun n => n.path == path

/-- The position of a namespace in the order of first occurrence. -/
def position? (t : NamespaceTree) (n : Namespace) : Option Nat :=
  t.namespaces.findIdx? fun m => m.segments == n.segments

def methodCount (t : NamespaceTree) : Nat :=
  t.namespaces.foldl (fun count n => count + n.methods.length) 0

/-- Makes sure that a prefix of a document's authority is a namespace. -/
def enter (document : String) (t : NamespaceTree) (segments : List String) :
    Except Problem NamespaceTree :=
  if t.namespaces.any fun n => n.segments == segments then .ok t
  else
    let entered : Namespace := ⟨segments, []⟩
    match (t.childrenOf entered.parent).find? fun sibling =>
        lower sibling.segment == lower entered.segment with
    | some sibling => .error (.foldedNamespace document entered.path sibling.path)
    | none => .ok ⟨t.namespaces ++ [entered]⟩

/-- Adds a method to the namespace of its authority. -/
def addMethod (t : NamespaceTree) (method : Nsid) : NamespaceTree :=
  ⟨t.namespaces.map fun n =>
    if n.segments == method.authoritySegments then ⟨n.segments, n.methods ++ [method]⟩ else n⟩

/-- Adds the authority of a document and, if it is a method, the method. -/
def insert (t : NamespaceTree) (document : Document) : Except Problem NamespaceTree := do
  let t ← (beginnings document.nsid.authoritySegments).foldlM (enter document.id) t
  return if document.isMethod then t.addMethod document.nsid else t

/-- The first method that is named like a member before it. -/
def clash? (scope : String) : List (String × String) -> List Nsid -> Option Problem
  | _, [] => none
  | taken, method :: rest =>
    let key := memberKey method.name
    match taken.lookup key with
    | some other => some (.memberClash method.text other scope)
    | none => clash? scope ((key, method.text) :: taken) rest

/-- The first method of a namespace that is named like another member. -/
def memberProblem? (t : NamespaceTree) (n : Namespace) : Option Problem :=
  clash? n.path
    ((t.childrenOf n.segments).map fun child => (memberKey child.segment, child.path)).reverse
    n.methods

def build (documents : List Document) : Except Problem NamespaceTree := do
  let t ← documents.foldlM insert empty
  match t.namespaces.findSome? t.memberProblem? with
  | some problem => .error problem
  | none => .ok t

/-- The number of segments of the longest prefix. -/
def height (t : NamespaceTree) : Nat :=
  (t.namespaces.map fun n => n.segments.length).foldl max 0

/-- The namespaces of one level and all inside them, down to a number of levels. -/
def walkFrom (t : NamespaceTree) : Nat -> Nat -> List Namespace -> List (Namespace × Nat)
  | 0, _, _ => []
  | levels + 1, depth, level =>
    level.flatMap fun n =>
      (n, depth) :: t.walkFrom levels (depth + 1) (t.childrenOf n.segments)

/-- All namespaces with their depth, each before those inside it. -/
def walk (t : NamespaceTree) : List (Namespace × Nat) := t.walkFrom t.height 0 t.roots

end NamespaceTree

end LexiconCompiler
