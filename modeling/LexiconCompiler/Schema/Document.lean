import LexiconCompiler.Markup.Json
import LexiconCompiler.Address
import LexiconCompiler.Schema.Walk

set_option autoImplicit false
set_option relaxedAutoImplicit false

/-!
Documents: an identifier and named definitions in source order, with the tree they were read from.
-/

namespace LexiconCompiler

/-- A finding that does not make a document invalid. -/
structure Warning where
  code : String
  message : String
  document : String
  path : String
  deriving DecidableEq, Repr

def Warning.text (w : Warning) : String :=
  w.code ++ ": " ++ w.document ++ " at " ++ w.path ++ ": " ++ w.message

/-- A named definition. -/
structure Definition where
  name : String
  type : SchemaType
  deriving Repr

/-- The fields of a document as read, before they are checked. -/
structure Draft where
  version : Int
  id : String
  revision : Option Int
  description : String
  defs : List Definition
  deriving Repr

/-- A valid document. -/
structure Document extends Draft where
  /-- Where the document came from, if that is known. -/
  source : String
  warnings : List Warning
  nsid : Nsid
  raw : Markup.Node

namespace Draft

def def? (d : Draft) (name : String) : Option SchemaType :=
  (d.defs.find? fun definition => definition.name == name).map Definition.type

/-- The kind of the principal definition. -/
def mainKind? (d : Draft) : Option Kind := (d.def? mainDef).map SchemaType.kind

/-- Whether the principal definition is a query or procedure. -/
def isMethod (d : Draft) : Bool := d.mainKind?.any Kind.isMethod

/-- All types of a document, each with its place. -/
def visits (d : Draft) : List Visit :=
  d.defs.flatMap fun definition => definition.type.visits (joinPath "defs" definition.name)

/-- All references of a document in document order. -/
def refs (d : Draft) : List RefSite := d.visits.flatMap Visit.refs

end Draft

namespace Document

/-- Where the document came from, and its identifier if that is not known. -/
def name (d : Document) : String := if d.source.isEmpty then d.id else d.source

def rawJson (d : Document) : Except Markup.JsonFault String := d.raw.toJson

end Document

end LexiconCompiler
