import LexiconCompiler.Mime.Pattern
import LexiconCompiler.Mime.Recognized
import LexiconCompiler.Schema.Reviewed

set_option autoImplicit false
set_option relaxedAutoImplicit false

/-!
Rules for single fields, checked once a document could be read: names, references, media types. Each
field or entry gives one issue, for the first rule that it breaks.
-/

namespace LexiconCompiler

def requireText (path text : String) : List Issue :=
  if text.isEmpty then [⟨path, "required", "", text⟩] else []

/-- A name: present, letters and digits only. -/
def requireName (path name : String) : List Issue :=
  if name.isEmpty then [⟨path, "required", "", name⟩]
  else if Text.isAlnumWord name then []
  else [⟨path, "must contain only letters and digits", "", name⟩]

def requirePattern (path pattern : String) : List Issue :=
  if Mime.isPattern pattern then []
  else [⟨path, "invalid MIME type", "type/subtype or type/*", pattern⟩]

/-- The issues of the entries of a list, each at its place. -/
def requireEach {α : Type} (rule : String -> α -> List Issue) (path : String) :
    Nat -> List α -> List Issue
  | _, [] => []
  | index, entry :: rest =>
    rule (indexPath path index) entry ++ requireEach rule path (index + 1) rest

def requireError (path : String) (error : NamedError) : List Issue :=
  requireName (path ++ ".name") error.name

/-- The references of a union: at least one, all present. -/
def requireRefs (path : String) (refs : List String) : List Issue :=
  if refs.isEmpty then [⟨path, "too few entries", "at least 1", "[]"⟩]
  else requireEach requireText path 0 refs

mutual

/-- The rules that a type and the types inside it break. -/
def SchemaType.ruleIssues : SchemaType -> String -> List Issue
  | .blob _ rules, path => requireEach requirePattern (path ++ ".accept") 0 rules.accept
  | .array _ items _ _, path => items.ruleIssues (path ++ ".items")
  | .object o, path => objectIssues o path
  | .record _ _ payload, path => objectIssues payload (path ++ ".record")
  | .method _ _ ⟨parameters, input, output, errors⟩, path =>
    parameterIssues parameters (path ++ ".parameters") ++ bodyIssues input (path ++ ".input") ++
      bodyIssues output (path ++ ".output") ++ requireEach requireError (path ++ ".errors") 0 errors
  | .ref _ ref, path => requireText (path ++ ".ref") ref
  | .union _ refs, path => requireRefs (path ++ ".refs") refs
  | _, _ => []

def objectIssues : ObjectType SchemaType -> String -> List Issue
  | ⟨_, required, properties, _⟩, path =>
    requireEach requireText (path ++ ".required") 0 required ++
      propertyIssues properties (path ++ ".properties") 0

def propertyIssues : List (Property SchemaType) -> String -> Nat -> List Issue
  | [], _, _ => []
  | ⟨name, type⟩ :: rest, path, index =>
    requireText (indexPath path index ++ ".name") name ++
      type.ruleIssues (indexPath path index ++ ".type") ++ propertyIssues rest path (index + 1)

def parameterIssues : Option (ObjectType SchemaType) -> String -> List Issue
  | none, _ => []
  | some o, path => objectIssues o path

def bodyIssues : Option (Body SchemaType) -> String -> List Issue
  | none, _ => []
  | some ⟨_, encoding, schema⟩, path =>
    requireEach requirePattern (path ++ ".encoding.values") 0 encoding.values ++
      schemaIssues schema (path ++ ".schema")

/-- The rules that the schema of a body breaks. -/
def schemaIssues : Option SchemaType -> String -> List Issue
  | none, _ => []
  | some schema, path => schema.ruleIssues path

end

def Definition.ruleIssues (definition : Definition) : List Issue :=
  let path := joinPath "defs" definition.name
  requireName (path ++ ".name") definition.name ++ definition.type.ruleIssues path

/-- The rules for the fields of a document itself. -/
def Draft.headerIssues (d : Draft) : List Issue :=
  (if d.version == 1 then [] else [⟨"lexicon", "unsupported value", "1", toString d.version⟩]) ++
    (if d.id.isEmpty then [⟨"id", "required", "", d.id⟩]
     else if Nsid.isValid d.id then []
     else [⟨"id", "invalid NSID", "dotted authority and name", d.id⟩]) ++
    (if d.defs.isEmpty then [⟨"defs", "too few entries", "at least 1", "[]"⟩] else [])

def Draft.ruleIssues (d : Draft) : List Issue :=
  d.headerIssues ++ d.defs.flatMap Definition.ruleIssues

/-- Records, queries and procedures stand in the principal definition only. -/
def Draft.placementIssues (d : Draft) : List Issue :=
  d.defs.flatMap fun definition =>
    if definition.name != mainDef && definition.type.kind.isPrimary then
      [⟨joinPath "defs" definition.name,
        "records, queries and procedures must be the main definition", "main", definition.name⟩]
    else []

end LexiconCompiler
