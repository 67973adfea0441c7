import LexiconCompiler.Input.Archive
import LexiconCompiler.Input.Sources
import LexiconCompiler.Schema.Reader

set_option autoImplicit false
set_option relaxedAutoImplicit false

/-!
Documents from files. Each document knows the file it came from.
-/

namespace LexiconCompiler

/-- The document of a text from a source. A problem without a document names the source. -/
def Document.ofSource (source text : String) : Except Failure Document :=
  match Document.parse text with
  | .ok document => .ok { document with source := source }
  | .error problem => .error (.problem (problem.labelled source))

/-- The documents of an archive. Members that are not recognized are passed over. -/
def bundleDocuments (path text : String) : Except Failure (List Document) :=
  ((Archive.members text).filter fun member => isRecognized member.name).mapM fun member =>
    Document.ofSource (path ++ ":" ++ member.name) member.content

namespace FileSystem

def loadFile (fs : FileSystem) (path : String) : Except Failure (List Document) := do
  let text ← (fs.read path).mapError fun fault =>
    Failure.within ("read " ++ path) (.plain fault.message)
  if Path.ext path == bundleExtension then bundleDocuments path text
  else return [← Document.ofSource path text]

/-- The documents of inputs. A cancelled run ends before the first file. -/
def load (fs : FileSystem) (inputs : List String) (canceled : Bool) :
    Except Failure (List Document) := do
  let files ← fs.resolve inputs
  if canceled && !files.isEmpty then throw .canceled
  return (← files.mapM fs.loadFile).flatten

end FileSystem

end LexiconCompiler
