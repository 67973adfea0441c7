import LexiconCompiler.Schema.Document

set_option autoImplicit false
set_option relaxedAutoImplicit false

/-!
Changes of documents after they were read. A definition that is put into another one stays the same
definition: what is put into it later shows in both places, even once it is dropped from the
document.
-/

namespace LexiconCompiler

/-- Gives the properties of a name another type. -/
def ObjectType.setProperty {α : Type} (o : ObjectType α) (name : String) (type : α) :
    ObjectType α :=
  { o with properties := o.properties.map fun p => if p.name == name then ⟨p.name, type⟩ else p }

/-- Gives a property of an object, or of the payload of a record, another type. -/
def SchemaType.setProperty (t : SchemaType) (name : String) (type : SchemaType) : SchemaType :=
  match t with
  | .object o => .object (o.setProperty name type)
  | .record description key payload => .record description key (payload.setProperty name type)
  | t => t

/-- A property that has the type of a definition. -/
structure Embedding where
  object : String
  property : String
  name : String
  deriving DecidableEq, Repr

/-- A change of a document. -/
inductive Edit where
  /-- Drops a definition. -/
  | removeDef (name : String)
  /-- Puts the type of a definition into a property of another definition. -/
  | embed (embedding : Embedding)
  deriving DecidableEq, Repr

/-- The names of the definitions that a document still has, and what was put where, in order. -/
structure EditState where
  names : List String
  embeddings : List Embedding
  deriving DecidableEq, Repr

/-- One change. Only definitions that the document still has can be put together. -/
def EditState.apply (state : EditState) : Edit -> EditState
  | .removeDef name => { state with names := state.names.filter fun n => n != name }
  | .embed embedding =>
    if state.names.contains embedding.object && state.names.contains embedding.name then
      { state with embeddings := state.embeddings ++ [embedding] }
    else state

namespace Draft

/-- The type of a definition with what was put into it, at most as deep as the first argument
says. -/
def typeWith (d : Draft) (embeddings : List Embedding) : Nat -> Definition -> SchemaType
  | 0, definition => definition.type
  | depth + 1, definition =>
    embeddings.foldl
      (fun type embedding =>
        if embedding.object != definition.name then type
        else
          match d.defs.find? fun source => source.name == embedding.name with
          | some source => type.setProperty embedding.property (d.typeWith embeddings depth source)
          | none => type)
      definition.type

def editedDefs (d : Draft) (edits : List Edit) : List Definition :=
  let state := edits.foldl EditState.apply ⟨d.defs.map Definition.name, []⟩
  let kept := d.defs.filter fun definition => state.names.contains definition.name
  kept.map fun definition =>
    ⟨definition.name, d.typeWith state.embeddings d.defs.length definition⟩

end Draft

def Document.edit (d : Document) (edits : List Edit) : Document :=
  { d with defs := d.editedDefs edits }

end LexiconCompiler
