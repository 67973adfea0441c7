import LexiconCompiler.Files.FileSystem
import LexiconCompiler.Markup.Reader
import LexiconCompiler.Problem
import LexiconCompiler.Project.Decoding
import LexiconCompiler.TypeScript.Style

set_option autoImplicit false
set_option relaxedAutoImplicit false

/-!
The configuration of a project, read from a file on top of defaults. Keys that mean nothing here are
passed over, and a null leaves a default in place.
-/

namespace LexiconCompiler

open LexiconCompiler.Markup

/-- The configuration of a project. -/
structure Config where
  inputs : List String
  out : String
  concurrency : Int
  skipGuards : Bool
  typescript : TypeScript.Options
  deriving DecidableEq, Repr

namespace Config

def default : Config :=
  { inputs := []
    out := "./lexicon-gen"
    concurrency := 0
    skipGuards := false
    typescript := { TypeScript.Options.default with indentSize := 2 } }

/-- The value of a scalar, with the text that it gives. -/
def scalar (node : Node) : Decoding (Scalar × Option String) :=
  match node with
  | .scalar tag text => do
    let value ← Decoding.scalarValue tag text
    let given ← Decoding.scalarText tag text
    return (value, given)
  | _ => failure

/-- A text, which a null leaves as it is. -/
def text (current : String) (node : Node) : Decoding String := do
  let (_, given) ← scalar node
  return given.getD current

/-- The integer part of a number that fits a word, and the least word below all of them. -/
def truncate? (x : Binary64) : Option Int :=
  if x == .nan || Binary64.lt (.ofInt Number.signedBound) x then none
  else
    match x.truncate? with
    | some i => some (if Number.fitsSigned i then i else -Number.signedBound)
    | none => some (-Number.signedBound)

/-- An integer, which a number gives without its fraction. -/
def int (current : Int) (node : Node) : Decoding Int := do
  match ← scalar node with
  | (.null, _) => return current
  | (.int i, _) => if Number.fitsSigned i then return i else failure
  | (.float x, _) =>
    match truncate? x with
    | some i => return i
    | none => failure
  | _ => failure

/-- A truth value, which some words stand for too. -/
def bool (current : Bool) (node : Node) : Decoding Bool := do
  match ← scalar node with
  | (.null, _) => return current
  | (.bool b, _) => return b
  | (.text s, _) =>
    if ["y", "Y", "yes", "on"].contains s then return true
    else if ["n", "N", "no", "off"].contains s then return false
    else failure
  | _ => failure

/-- A list of texts, without its nulls; a null is an empty list. -/
def texts (node : Node) : Decoding (List String) :=
  match node with
  | .sequence items => do
    let given ← items.mapM (Decoding.visiting fun item => return (← scalar item).2)
    return given.filterMap id
  | node => do
    match ← scalar node with
    | (.null, _) => return []
    | _ => failure

def field {α β : Type} (get : α -> β) (set : α -> β -> α) (read : β -> Node -> Decoding β) :
    α -> Node -> Decoding α :=
  fun record node => do
    let value ← Decoding.visiting (read (get record)) node
    return set record value

/-- The settings of the TypeScript output. -/
def typeScriptFields : Decoding.RecordFields TypeScript.Options
  | "indent_size" => some (field (·.indentSize) (fun o n => { o with indentSize := n }) int)
  | "import_extension" =>
    some (field (·.importExtension) (fun o s => { o with importExtension := s }) text)
  | "omit_comments" => some (field (·.omitComments) (fun o b => { o with omitComments := b }) bool)
  | "frontmatter" => some (field (·.frontmatter) (fun o s => { o with frontmatter := s }) text)
  | _ => none

def fields : Decoding.RecordFields Config
  | "inputs" => some (field (·.inputs) (fun c l => { c with inputs := l }) fun _ => texts)
  | "out" => some (field (·.out) (fun c s => { c with out := s }) text)
  | "concurrency" => some (field (·.concurrency) (fun c n => { c with concurrency := n }) int)
  | "skip_guards" => some (field (·.skipGuards) (fun c b => { c with skipGuards := b }) bool)
  | "typescript" =>
    some (field (·.typescript) (fun c o => { c with typescript := o })
      (Decoding.recordFields typeScriptFields))
  | _ => none

/-- The configuration that a tree describes; the document is visited besides its root. -/
def ofNode (node : Node) : Decoding Config := do
  Decoding.visit
  Decoding.visiting (Decoding.recordFields fields default) node

def parse? (text : String) : Option Config := do
  let node ← Node.parse? text
  let (config, _) ← (ofNode node).run .none
  return config

def fault? (c : Config) : Option String :=
  if c.out.isEmpty then some "out is required"
  else if c.concurrency < 0 then some "concurrency must not be negative"
  else if c.typescript.indentSize < 0 || c.typescript.indentSize > 8 then
    some "typescript.indent_size must be between 0 and 8"
  else none

def load (fs : FileSystem) (path : String) : Except Failure (Config × Bool) :=
  match fs.read path with
  | .error fault =>
    if fault.isMissing then .ok (default, false)
    else .error (.within "failed to read config file" (.plain fault.message))
  | .ok text =>
    match parse? text with
    | none => .error (.plain "failed to parse config file")
    | some config =>
      match config.fault? with
      | some fault => .error (.within path (.plain fault))
      | none => .ok (config, true)

end Config

end LexiconCompiler
