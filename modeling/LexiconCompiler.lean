import LexiconCompiler.Text.Letter
import LexiconCompiler.Address
import LexiconCompiler.Casing
import LexiconCompiler.Number.Layout
import LexiconCompiler.Number.Literal
import LexiconCompiler.Markup.Json
import LexiconCompiler.Markup.ScalarText
import LexiconCompiler.Markup.Reader
import LexiconCompiler.Mime.Pattern
import LexiconCompiler.Mime.Recognized
import LexiconCompiler.Schema.Document
import LexiconCompiler.Schema.TypeReader
import LexiconCompiler.Schema.Reader
import LexiconCompiler.Schema.RawValue
import LexiconCompiler.Batch
import LexiconCompiler.Code.Compact
import LexiconCompiler.Code.Unit
import LexiconCompiler.Compilation
import LexiconCompiler.Schema.Edit
import LexiconCompiler.TypeScript.Printer
import LexiconCompiler.Rendering
import LexiconCompiler.Output.Delivery
import LexiconCompiler.Output.Writers
import LexiconCompiler.Main
import LexiconCompiler.Proofs.Schema.Validation
import LexiconCompiler.Proofs.Compilation
import LexiconCompiler.Proofs.Namespace.Arena
import LexiconCompiler.Proofs.Namespace.Arrangement
import LexiconCompiler.Proofs.Namespace.Census
import LexiconCompiler.Proofs.Emission.Declaring
import LexiconCompiler.Proofs.Emission.Resolved
import LexiconCompiler.Proofs.Namespace.Forest
import LexiconCompiler.Proofs.Markup.Json
import LexiconCompiler.Proofs.Compilation.Failures
import LexiconCompiler.Proofs.Emission.Agreement
import LexiconCompiler.Proofs.TokenGroups
import LexiconCompiler.Proofs.Compilation.Independence
import LexiconCompiler.Proofs.Compilation.Server
import LexiconCompiler.Proofs.Casing
import LexiconCompiler.Proofs.Compilation.Members
import LexiconCompiler.Proofs.Emission.Names
import LexiconCompiler.Proofs.Compilation.Names
import LexiconCompiler.Proofs.TypeScript.Imports
import LexiconCompiler.Proofs.Compilation.Imports
import LexiconCompiler.Proofs.TypeScript.StringLiteral
import LexiconCompiler.Proofs.Output.Delivery
import LexiconCompiler.Proofs.Compilation.Dependencies
import LexiconCompiler.Proofs.Compilation.Rendering
import LexiconCompiler.Proofs.TypeScript.FileImports
import LexiconCompiler.Proofs.Compilation.Erasure
import LexiconCompiler.Proofs.Compilation.Guards
import LexiconCompiler.Proofs.Compilation.Tokens
import LexiconCompiler.Proofs.Compilation.Constraints
import LexiconCompiler.Proofs.Files.Path
import LexiconCompiler.Proofs.Files.FileSystem
import LexiconCompiler.Proofs.Output.FileSink
import LexiconCompiler.Proofs.Output.Writers
import LexiconCompiler.Proofs.Output.Containment
import LexiconCompiler.Proofs.Output.Atomicity
import LexiconCompiler.Schedule
import LexiconCompiler.Proofs.Compilation.Scheduling
import LexiconCompiler.Proofs.Number.Shortest
import LexiconCompiler.Proofs.Text.JsonValue
import LexiconCompiler.Proofs.Markup.JsonImage
import LexiconCompiler.Proofs.Markup.Repeats
import LexiconCompiler.Proofs.Schema.Levels
import LexiconCompiler.Proofs.Schema.Repeats
import LexiconCompiler.Proofs.Schema.KeyOrder
import LexiconCompiler.Proofs.Emission.Following
import LexiconCompiler.Proofs.Emission.Contract
import LexiconCompiler.Proofs.Compilation.Prose
import LexiconCompiler.Proofs.TypeScript.Grouping
import LexiconCompiler.Proofs.TypeScript.Specifier
import LexiconCompiler.Proofs.Nsid.Bytes
import LexiconCompiler.Proofs.Address.Canonical
import LexiconCompiler.Proofs.TokenTable
import LexiconCompiler.Proofs.Files.Extension
import LexiconCompiler.Proofs.Files.Descending
import LexiconCompiler.Proofs.Input.Walk
import LexiconCompiler.Proofs.Input.Resolution
import LexiconCompiler.Proofs.Input.Roots
import LexiconCompiler.Proofs.Input.Loading
