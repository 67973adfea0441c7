import LexiconCompiler.Input.Load
import LexiconCompiler.Output.Delivery
import LexiconCompiler.Project.Config

set_option autoImplicit false
set_option relaxedAutoImplicit false

/-!
What the commands do: they read a configuration and documents from a file system, say how it went
and leave the file system with what they wrote.
-/

namespace LexiconCompiler

/-- The name of the configuration file, unless another one is given. -/
def configFile : String := "lexgen.yaml"

namespace Config

/-- The configuration at a path with the inputs that are given. There has to be an input. -/
def forProject (fs : FileSystem) (path : String) (inputs : List String) :
    Except Failure Config := do
  let (config, _) ← load fs path
  let config := if inputs.isEmpty then config else { config with inputs := inputs }
  if config.inputs.isEmpty then
    .error (.plain ("no inputs: pass lexicon paths or set inputs in " ++ path))
  else .ok config

def settings (c : Config) (canceled : Bool) : Settings :=
  ⟨c.skipGuards, canceled, .typescript c.typescript⟩

def generate (c : Config) (canceled : Bool) (documents : List Document) :
    Except Failure Generated :=
  LexiconCompiler.generate (c.settings canceled) (documents.map some)

end Config

/-- What a command says, how it failed and the files it leaves. -/
structure CommandResult where
  stdout : String
  failure : Option Failure
  files : FileSystem

/-- The command that checks documents. -/
structure CheckCommand where
  inputs : List String
  config : String

/-- The command that generates files. Empty and zero settings leave the configuration as it is. -/
structure GenCommand extends CheckCommand where
  out : String
  noGuards : Bool
  concurrency : Int

/-- The report on documents that were read. -/
def loadedLine (documents : List Document) : String :=
  "✓ Loaded " ++ toString documents.length ++ " documents\n"

/-- The report on documents that fit together. -/
def checkedLines (generated : Generated) : String :=
  String.join (generated.warnings.map fun warning => "! " ++ warning.text ++ "\n") ++
    "✓ " ++ toString generated.stats.namespaces ++ " namespaces, " ++
    toString generated.stats.methods ++ " methods, " ++ toString generated.stats.tokens ++
    " tokens\n✓ All references resolvable\n"

/-- The report on files that were written. -/
def writtenLine (generated : Generated) (directory : String) : String :=
  "✓ " ++ toString generated.stats.documents ++ " documents, " ++
    toString generated.stats.methods ++ " methods, " ++ toString generated.files.length ++
    " files written to " ++ directory ++ "\n"

def CheckCommand.prepare (c : CheckCommand) (fs : FileSystem) :
    Except Failure (Config × List Document) := do
  let config ← Config.forProject fs c.config c.inputs
  return (config, ← fs.load config.inputs false)

/-- Checks documents and writes nothing. -/
def CheckCommand.run (c : CheckCommand) (fs : FileSystem) : CommandResult :=
  match c.prepare fs with
  | .error failure => ⟨"", some failure, fs⟩
  | .ok (config, documents) =>
    match config.generate false documents with
    | .error failure => ⟨loadedLine documents, some failure, fs⟩
    | .ok generated => ⟨loadedLine documents ++ checkedLines generated, none, fs⟩

/-- The configuration with the settings of the command. -/
def GenCommand.override (c : GenCommand) (config : Config) : Config :=
  { config with
    out := if c.out.isEmpty then config.out else c.out
    skipGuards := c.noGuards || config.skipGuards
    concurrency := if c.concurrency > 0 then c.concurrency else config.concurrency }

def GenCommand.run (c : GenCommand) (fs : FileSystem) : CommandResult :=
  match c.prepare fs with
  | .error failure => ⟨"", some failure, fs⟩
  | .ok (config, documents) =>
    let config := c.override config
    let directory := fs.key config.out
    let write := (FileSink.into directory).write false fun _ => .smooth
    match deliver write (config.generate false documents) fs with
    | (.error failure, fs) => ⟨"", some failure, fs⟩
    | (.ok generated, fs) => ⟨writtenLine generated directory, none, fs⟩

end LexiconCompiler
