import LexiconCompiler.Project.Command

set_option autoImplicit false
set_option relaxedAutoImplicit false

/-!
The arguments of the command line.
-/

namespace LexiconCompiler

/-- A command with its settings. -/
inductive Invocation where
  | check (command : CheckCommand)
  | gen (command : GenCommand)

namespace Invocation

/-- The settings while arguments are read. -/
def start : GenCommand := ⟨⟨[], configFile⟩, "", false, 0⟩

/-- Reads the arguments after the name of the command. -/
def settings : GenCommand -> List String -> Except String GenCommand
  | c, [] => .ok c
  | c, [arg] =>
    if arg == "--no-guards" then .ok { c with noGuards := true }
    else if Text.startsWith arg.toList ['-'] then .error ("unexpected argument " ++ arg)
    else .ok { c with inputs := c.inputs ++ [arg] }
  | c, arg :: value :: rest =>
    if arg == "--no-guards" then settings { c with noGuards := true } (value :: rest)
    else if arg == "-c" || arg == "--config" then settings { c with config := value } rest
    else if arg == "-o" || arg == "--out" then settings { c with out := value } rest
    else if arg == "--concurrency" then
      match value.toInt? with
      | some n => settings { c with concurrency := n } rest
      | none => .error ("expected a number but got " ++ value)
    else if Text.startsWith arg.toList ['-'] then .error ("unexpected argument " ++ arg)
    else settings { c with inputs := c.inputs ++ [arg] } (value :: rest)

def ofArgs : List String -> Except String Invocation
  | "check" :: rest => (settings start rest).map fun c => .check c.toCheckCommand
  | "gen" :: rest => (settings start rest).map .gen
  | _ => .error "expected one of \"gen\", \"check\""

/-- The settings that both commands have. -/
def shared : Invocation -> CheckCommand
  | .check c => c
  | .gen c => c.toCheckCommand

def run : Invocation -> FileSystem -> CommandResult
  | .check c, fs => c.run fs
  | .gen c, fs => c.run fs

end Invocation

end LexiconCompiler
