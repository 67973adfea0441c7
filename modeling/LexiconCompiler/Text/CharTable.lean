set_option autoImplicit false
set_option relaxedAutoImplicit false

/-!
Tables of characters: inclusive ranges for a property, and runs with a common distance for a
case mapping. Both are searched from the front.
-/

namespace LexiconCompiler.Text

/-- Whether some range of the table holds the code point. -/
def inRanges (table : List (Nat × Nat)) (code : Nat) : Bool :=
  table.any fun range => range.1 ≤ code && code ≤ range.2

/-- The code points `first`, `first + stride`, ..., `last`, each mapped `shift` further on. -/
structure CaseRun where
  first : Nat
  last : Nat
  stride : Nat
  shift : Int

/-- Whether the run holds the code point. -/
def CaseRun.covers (run : CaseRun) (code : Nat) : Bool :=
  run.first ≤ code && code ≤ run.last && (code - run.first) % run.stride == 0

/-- The image of a character under the first run that covers it, and itself without one. -/
def shiftBy (runs : List CaseRun) (c : Char) : Char :=
  match runs.find? fun run => run.covers c.toNat with
  | some run => Char.ofNat (c.toNat + run.shift).toNat
  | none => c

end LexiconCompiler.Text
