import LexiconCompiler.Problem
import LexiconCompiler.Schema.Document
import LexiconCompiler.Text.LetterCase

set_option autoImplicit false
set_option relaxedAutoImplicit false

/-!
The registry of a batch: documents whose identifiers differ in more than case, and whose references
all lead to a definition that may be referenced.
-/

namespace LexiconCompiler

open LexiconCompiler.Text

/-- The documents of a batch in input order. -/
structure Registry where
  documents : List Document

/-- A document of a batch and where it came from. -/
def origin (index : Nat) (document : Document) : String :=
  document.id ++ " (" ++
    (if document.source.isEmpty then "input " ++ toString index else document.source) ++ ")"

namespace Registry

def document? (r : Registry) (id : String) : Option Document :=
  r.documents.find? fun document => document.id == id

def find? (r : Registry) (address : Address) : Option SchemaType :=
  (r.document? address.nsid).bind fun document => document.def? address.fragment

/-- What is wrong with a reference of a document. -/
def refProblem? (r : Registry) (document : Document) (site : RefSite) : Option Problem :=
  match Address.parse site.ref document.id with
  | .error fault => some (.malformedReference document.id site.path fault)
  | .ok address =>
    match r.find? address with
    | none => some (.missingTarget document.id site.path address)
    | some target =>
      if target.kind.isPrimary then
        some (.primaryTarget document.id site.path address target.kind)
      else none

/-- The first reference of the batch that leads nowhere. -/
def problem? (r : Registry) : Option Problem :=
  r.documents.findSome? fun document => document.refs.findSome? (r.refProblem? document)

/-- The problem of a document whose identifier an earlier one has, up to case. -/
def repeated (index : Nat) (document : Document) (earlierIndex : Nat) (earlier : Document) :
    Problem :=
  if earlier.id == document.id then
    .repeatedDocument document.id (origin earlierIndex earlier) (origin index document)
  else .foldedDocument document.id (origin earlierIndex earlier) (origin index document)

/-- The first document of a list whose identifier is the given one up to case, with its index. -/
def sameId? (id : String) (documents : List Document) : Option (Nat × Document) :=
  (documents.zipIdx.find? fun (document, _) => lower document.id == lower id).map Prod.swap

/-- The documents of a list without gaps and repeated identifiers; `seen` are those before it. -/
def collect : List Document -> List (Option Document) -> Except Problem (List Document)
  | seen, [] => .ok seen
  | seen, none :: _ => .error (.notADocument seen.length)
  | seen, some document :: rest =>
    match sameId? document.id seen with
    | some (index, earlier) => .error (repeated seen.length document index earlier)
    | none => collect (seen ++ [document]) rest

def build (documents : List (Option Document)) : Except Problem Registry := do
  let registry : Registry := ⟨← collect [] documents⟩
  match registry.problem? with
  | some problem => .error problem
  | none => .ok registry

def locate (r : Registry) (address : Address) : Except Problem SchemaType :=
  match r.find? address with
  | some type => .ok type
  | none => .error (.missingDefinition address)

/-- The definition at an address as written. -/
def lookup (r : Registry) (address : String) : Except Problem SchemaType :=
  match Address.parse address "" with
  | .error fault => .error (.malformedAddress address fault)
  | .ok address => r.locate address

/-- The definition at an address, which has one of the named kinds. No names allow every kind. -/
def resolve (r : Registry) (address : String) (allowed : List String) :
    Except Problem SchemaType := do
  let type ← r.lookup address
  if allowed.isEmpty || allowed.contains type.kind.name then return type
  else .error (.wrongKind address type.kind allowed)

end Registry

end LexiconCompiler
