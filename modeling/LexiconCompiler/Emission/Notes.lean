import LexiconCompiler.Code.TypeExpr
import LexiconCompiler.Schema.Type
import LexiconCompiler.Text.Quoted

set_option autoImplicit false
set_option relaxedAutoImplicit false

/-!
Prose of types: their description, and the constraints that no type of generated code expresses.
-/

namespace LexiconCompiler.Emission

open LexiconCompiler.Code
open LexiconCompiler.Text

def note {α : Type} (text : α -> String) (key : String) : Option α -> List String
  | some value => [key ++ ": " ++ text value]
  | none => []

def numericNotes {α : Type} (text : α -> String) (rules : NumericRules α) : List String :=
  note text "minimum" rules.minimum ++ note text "maximum" rules.maximum ++
    note text "default" rules.default

def stringNotes (rules : StringRules) : List String :=
  note toString "minLength" rules.minLength ++ note toString "maxLength" rules.maxLength ++
    note quote "default" rules.default

def blobNotes (rules : BlobRules) : List String :=
  (if rules.accept.isEmpty then [] else ["accept: " ++ joinWith ", " rules.accept]) ++
    note toString "maxSize" rules.maxSize ++ note toString "maxWidth" rules.maxWidth ++
    note toString "maxHeight" rules.maxHeight ++ note toString "maxLength" rules.maxLength

/-- The constraints of a type that its generated type does not express. -/
def notes : SchemaType -> List String
  | .boolean _ default _ => note (fun b => if b then "true" else "false") "default" default
  | .integer _ rules => numericNotes toString rules
  | .number _ rules => numericNotes Binary64.text rules
  | .string _ rules => stringNotes rules
  | .array _ _ minLength maxLength =>
    note toString "minLength" minLength ++ note toString "maxLength" maxLength
  | .blob _ rules => blobNotes rules
  | _ => []

def documentation (type : SchemaType) : Documentation := ⟨type.description, notes type⟩

end LexiconCompiler.Emission
