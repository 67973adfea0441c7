import LexiconCompiler.Schema.Reviewed

set_option autoImplicit false
set_option relaxedAutoImplicit false

/-!
Why a document or a batch of documents is refused. A problem has a code, the document and place it
was found at, and a wording; all of them are functions of its cause.
-/

namespace LexiconCompiler

open LexiconCompiler.Text

/-- The category of a problem. -/
inductive ProblemCode where
  | schemaMalformed
  | duplicateIdentifier
  | unresolvedReference
  | invalidReferenceKind
  | defNotFound
  | invalidKind
  | cyclicOrMissingImport
  deriving DecidableEq, Repr

def ProblemCode.name : ProblemCode -> String
  | .schemaMalformed => "schema_malformed"
  | .duplicateIdentifier => "duplicate_identifier"
  | .unresolvedReference => "unresolved_reference"
  | .invalidReferenceKind => "invalid_reference_kind"
  | .defNotFound => "def_not_found"
  | .invalidKind => "invalid_kind"
  | .cyclicOrMissingImport => "cyclic_or_missing_import"

def ProblemCode.all : List ProblemCode :=
  [.schemaMalformed, .duplicateIdentifier, .unresolvedReference, .invalidReferenceKind,
   .defNotFound, .invalidKind, .cyclicOrMissingImport]

/-- Why a reference has no target. -/
inductive ImportFault where
  | malformed (fault : AddressFault)
  | missing (address : Address)
  deriving DecidableEq, Repr

/-- The cause of a problem. -/
inductive Problem where
  /-- A text that cannot be read. -/
  | unreadable (document : String)
  /-- No value where a document is expected. -/
  | noValue (document : String)
  /-- A value whose text cannot be read. -/
  | unreadableValue (document : String)
  /-- A document that breaks rules. -/
  | invalidDocument (document : String) (issues : List Issue)
  /-- A gap in a list of documents. -/
  | notADocument (index : Nat)
  /-- Two documents of one identifier, each with where it came from. -/
  | repeatedDocument (document first second : String)
  /-- Two documents whose identifiers differ in case only. -/
  | foldedDocument (document first second : String)
  /-- A reference that is no address. -/
  | malformedReference (document path : String) (fault : AddressFault)
  /-- A reference to a definition that does not exist. -/
  | missingTarget (document path : String) (target : Address)
  /-- A reference to a definition that no reference may name. -/
  | primaryTarget (document path : String) (target : Address) (kind : Kind)
  /-- A look-up of something that is no address. -/
  | malformedAddress (address : String) (fault : AddressFault)
  /-- A look-up of a definition that does not exist. -/
  | missingDefinition (address : Address)
  /-- A look-up of a definition of another kind. -/
  | wrongKind (address : String) (kind : Kind) (allowed : List String)
  /-- Two namespaces whose last segments differ in case only. -/
  | foldedNamespace (document path other : String)
  /-- A method named like another member of its namespace. -/
  | memberClash (document other scope : String)
  /-- Two groups of tokens with one constant. -/
  | groupClash (first second constant : String)
  /-- Two tokens of a group with one name. -/
  | tokenClash (group first second : String)
  /-- A generated name that is declared twice. -/
  | repeatedName (unit name : String)
  /-- Two documents with one key. -/
  | keyClash (document other key : String)
  /-- A type that cannot stand inside another one. -/
  | notNested (document path : String) (kind : Kind)
  /-- A reference that cannot be followed when code is derived from it. -/
  | unresolvedImport (document path ref : String) (cause : ImportFault)
  deriving DecidableEq, Repr

namespace Problem

def code : Problem -> ProblemCode
  | .unreadable .. => .schemaMalformed
  | .noValue .. => .schemaMalformed
  | .unreadableValue .. => .schemaMalformed
  | .invalidDocument .. => .schemaMalformed
  | .notADocument .. => .schemaMalformed
  | .repeatedDocument .. => .duplicateIdentifier
  | .foldedDocument .. => .duplicateIdentifier
  | .malformedReference .. => .unresolvedReference
  | .missingTarget .. => .unresolvedReference
  | .primaryTarget .. => .invalidReferenceKind
  | .malformedAddress .. => .defNotFound
  | .missingDefinition .. => .defNotFound
  | .wrongKind .. => .invalidKind
  | .foldedNamespace .. => .duplicateIdentifier
  | .memberClash .. => .duplicateIdentifier
  | .groupClash .. => .duplicateIdentifier
  | .tokenClash .. => .duplicateIdentifier
  | .repeatedName .. => .duplicateIdentifier
  | .keyClash .. => .duplicateIdentifier
  | .notNested .. => .invalidKind
  | .unresolvedImport .. => .cyclicOrMissingImport

/-- The document of a problem, empty if there is none. -/
def document : Problem -> String
  | .unreadable document => document
  | .noValue document => document
  | .unreadableValue document => document
  | .invalidDocument document _ => document
  | .notADocument _ => ""
  | .repeatedDocument document _ _ => document
  | .foldedDocument document _ _ => document
  | .malformedReference document _ _ => document
  | .missingTarget document _ _ => document
  | .primaryTarget document _ _ _ => document
  | .malformedAddress _ _ => ""
  | .missingDefinition address => address.nsid
  | .wrongKind _ _ _ => ""
  | .foldedNamespace document _ _ => document
  | .memberClash document _ _ => document
  | .groupClash _ _ _ => ""
  | .tokenClash group _ second => group ++ "." ++ second
  | .repeatedName unit _ => unit
  | .keyClash document _ _ => document
  | .notNested document _ _ => document
  | .unresolvedImport document _ _ _ => document

/-- The place of a problem in its document, empty if there is none. -/
def path : Problem -> String
  | .malformedReference _ path _ => path
  | .missingTarget _ path _ => path
  | .primaryTarget _ path _ _ => path
  | .malformedAddress address _ => address
  | .missingDefinition address => address.fragment
  | .wrongKind address _ _ => address
  | .notNested _ path _ => path
  | .unresolvedImport _ path _ _ => path
  | _ => ""

def issues : Problem -> List Issue
  | .invalidDocument _ issues => issues
  | _ => []

def message : Problem -> String
  | .unreadable _ => "document is not valid JSON or YAML"
  | .noValue _ => "value cannot be read as a document"
  | .unreadableValue _ => "value cannot be read as a document"
  | .invalidDocument _ _ => "invalid lexicon document"
  | .notADocument index => "input " ++ toString index ++ " is not a document"
  | .repeatedDocument _ first second => "declared by both " ++ first ++ " and " ++ second
  | .foldedDocument _ first second => second ++ " collides with " ++ first ++ " ignoring case"
  | .malformedReference _ _ _ => "malformed reference"
  | .missingTarget _ _ target => target.full ++ " not found"
  | .primaryTarget _ _ target kind =>
    target.full ++ " is a " ++ kind.name ++ " and cannot be referenced"
  | .malformedAddress _ _ => "malformed address"
  | .missingDefinition address => address.full ++ " not found"
  | .wrongKind address kind allowed =>
    address ++ " is a " ++ kind.name ++ ", expected one of [" ++ joinWith " " allowed ++ "]"
  | .foldedNamespace _ path other =>
    "namespace " ++ quote path ++ " collides with " ++ quote other ++ " ignoring case"
  | .memberClash document other scope =>
    "method " ++ document ++ " collides with " ++ other ++ " in namespace " ++ scope
  | .groupClash first second constant =>
    "token groups " ++ quote first ++ " and " ++ quote second ++ " both map to " ++ constant
  | .tokenClash group first second =>
    "tokens " ++ group ++ "." ++ first ++ " and " ++ group ++ "." ++ second ++
      " map to the same name"
  | .repeatedName _ name => "generated name " ++ name ++ " is declared twice"
  | .keyClash document other key => other ++ " and " ++ document ++ " both map to " ++ key
  | .notNested _ _ kind => kind.name ++ " cannot be used as a nested type"
  | .unresolvedImport _ _ ref _ => "cannot resolve " ++ quote ref

/-- A problem on its first line, given the wording of what caused it. -/
def headline (p : Problem) (cause : Option String) : String :=
  p.code.name ++ (if p.document.isEmpty then "" else ": " ++ p.document) ++
    (if p.path.isEmpty then "" else " at " ++ p.path) ++ ": " ++ p.message ++
    (match cause with
      | some text => ": " ++ text
      | none => "")

/-- What caused a problem, where it has a cause of its own. -/
def cause : Problem -> Option String
  | .noValue _ => some "nil value"
  | .malformedReference _ _ fault => some fault.message
  | .malformedAddress _ fault => some fault.message
  | .unresolvedImport _ _ _ (.malformed fault) => some fault.message
  | .unresolvedImport _ _ _ (.missing address) =>
    some ((Problem.missingDefinition address).headline none)
  | _ => none

/-- The whole wording: the headline, and a line for each issue. -/
def text (p : Problem) : String :=
  p.headline p.cause ++ String.join (p.issues.map fun issue => "\n  - " ++ issue.text)

/-- The codes of a problem and of the problem that caused it. -/
def codes : Problem -> List ProblemCode
  | .unresolvedImport _ _ _ (.missing _) => [.defNotFound, .cyclicOrMissingImport]
  | p => [p.code]

/-- Names the document of a problem found while reading, unless it is known. -/
def labelled (p : Problem) (label : String) : Problem :=
  match p with
  | .unreadable document => .unreadable (if document.isEmpty then label else document)
  | .noValue document => .noValue (if document.isEmpty then label else document)
  | .unreadableValue document => .unreadableValue (if document.isEmpty then label else document)
  | .invalidDocument document issues =>
    .invalidDocument (if document.isEmpty then label else document) issues
  | p => p

end Problem

/-- Why a run of the compiler ended early. All but an overflow are errors that a caller gets; an
overflow of the stack ends the program. -/
inductive Failure where
  | problem (problem : Problem)
  | canceled
  | overflow
  | plain (text : String)
  | within (label : String) (inner : Failure)
  deriving Repr

namespace Failure

def text : Failure -> String
  | .problem p => p.text
  | .canceled => "context canceled"
  | .overflow => "stack overflow"
  | .plain text => text
  | .within label inner => label ++ ": " ++ inner.text

def problem? : Failure -> Option Problem
  | .problem p => some p
  | .within _ inner => inner.problem?
  | _ => none

/-- Whether a failure goes back to a cancellation. -/
def isCanceled : Failure -> Bool
  | .canceled => true
  | .within _ inner => inner.isCanceled
  | _ => false

/-- Whether a failure is no error that a caller gets. -/
def isOverflow : Failure -> Bool
  | .overflow => true
  | .within _ inner => inner.isOverflow
  | _ => false

end Failure

end LexiconCompiler
