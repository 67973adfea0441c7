set_option autoImplicit false
set_option relaxedAutoImplicit false

/-!
Choices about the generated TypeScript.
-/

namespace LexiconCompiler.TypeScript

/-- The choices as they are given; an empty one stands for the default. -/
structure Options where
  indentSize : Int
  omitComments : Bool
  frontmatter : String
  importExtension : String
  deriving DecidableEq, Repr

/-- The choices that are followed. -/
structure Style where
  indentSize : Nat
  omitComments : Bool
  frontmatter : String
  importExtension : String
  deriving DecidableEq, Repr

def Options.default : Options := ⟨0, false, "", ""⟩

/-- What stands at the top of each file unless something else is chosen. -/
def defaultFrontmatter : String := "/**\n * GENERATED CODE - DO NOT MODIFY\n */"

/-- The choices with defaults: two blanks a level, and the default frontmatter, which a single
hyphen turns off. -/
def Options.style (o : Options) : Style :=
  { indentSize := if o.indentSize ≤ 0 then 2 else o.indentSize.toNat
    omitComments := o.omitComments
    frontmatter :=
      if o.frontmatter.isEmpty then defaultFrontmatter
      else if o.frontmatter == "-" then ""
      else o.frontmatter
    importExtension := o.importExtension }

/-- The blanks at the start of a line. -/
def Style.indent (style : Style) (depth : Nat) : String :=
  String.ofList (List.replicate (style.indentSize * depth) ' ')

end LexiconCompiler.TypeScript
