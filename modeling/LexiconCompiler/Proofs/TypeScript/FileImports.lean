import LexiconCompiler.Proofs.TypeScript.Imports
import LexiconCompiler.Rendering

set_option autoImplicit false
set_option relaxedAutoImplicit false

/-!
The imports of a file, from what the declarations of its unit mention: one statement for each form
in which a library is used, and for every other unit one that takes its values by name and one that
takes its types under an alias. Needs that are recorded come first, whatever else is used after
them.
-/

namespace LexiconCompiler

open LexiconCompiler.Code LexiconCompiler.Text

namespace TypeScript

/-- A list has the wanted entries and no others, each once. -/
def Lists {α : Type} (xs : List α) (wanted : α → Prop) : Prop :=
  xs.Nodup ∧ ∀ x, x ∈ xs ↔ wanted x

section Mentions

end Mentions

end TypeScript

namespace Code.SourceUnit

end Code.SourceUnit

namespace TypeScript

section Libraries

end Libraries

section Units

variable {u : SourceUnit}

end Units

section Exact

variable (mentions : List Mention)

end Exact

end TypeScript

end LexiconCompiler
