import LexiconCompiler.Number.Layout
import LexiconCompiler.Schema.Rules

set_option autoImplicit false
set_option relaxedAutoImplicit false

/-!
Rules that compare fields of a type with each other, and warnings about media types that are not
recognised. They are checked for every type of a document in document order.
-/

namespace LexiconCompiler

open LexiconCompiler.Text

/-- A lower bound above its upper bound. -/
def boundIssues {α : Type} (exceeds : α -> α -> Bool) (shown : α -> String)
    (path low high : String) (least most : Option α) : List Issue :=
  match least, most with
  | some least, some most =>
    if exceeds least most then
      [⟨joinPath path low, low ++ " exceeds " ++ high, "at most " ++ shown most, shown least⟩]
    else []
  | _, _ => []

/-- A value outside the declared set. -/
def choiceIssues {α : Type} (same : α -> α -> Bool) (shown : α -> String) (path field : String)
    (enum : List α) (value : Option α) : List Issue :=
  match value with
  | none => []
  | some value =>
    if enum.isEmpty || enum.any (same · value) then []
    else
      [⟨joinPath path field, field ++ " is not one of enum",
        "[" ++ joinWith " " (enum.map shown) ++ "]", shown value⟩]

def numericIssues {α : Type} (exceeds same : α -> α -> Bool) (shown : α -> String) (path : String)
    (rules : NumericRules α) : List Issue :=
  boundIssues exceeds shown path "minimum" "maximum" rules.minimum rules.maximum ++
    choiceIssues same shown path "const" rules.enum rules.const ++
    choiceIssues same shown path "default" rules.enum rules.default

def lengthIssues (path : String) (minLength maxLength : Option Nat) : List Issue :=
  boundIssues (fun a b => decide (b < a)) toString path "minLength" "maxLength" minLength maxLength

/-- Required properties that are not declared. -/
def requiredIssues (o : ObjectType SchemaType) (path : String) : List Issue :=
  requireEach
    (fun place name =>
      if (o.property? name).isSome then []
      else
        [⟨place, "required property is not declared", "a declared property name", quote name⟩])
    (joinPath path "required") 0 o.required

/-- The rules that the fields of one type break together. -/
def Visit.issues (visit : Visit) : List Issue :=
  match visit.type with
  | .integer _ rules =>
    numericIssues (fun a b => decide (b < a)) (· == ·) toString visit.path rules
  | .number _ rules =>
    numericIssues (fun a b => b.lt a) Binary64.same Binary64.text visit.path rules
  | .string _ rules =>
    lengthIssues visit.path rules.minLength rules.maxLength ++
      choiceIssues (· == ·) id visit.path "const" rules.enum rules.const ++
      choiceIssues (· == ·) id visit.path "default" rules.enum rules.default
  | .array _ _ minLength maxLength => lengthIssues visit.path minLength maxLength
  | .object o => requiredIssues o visit.path
  | _ => []

/-- The warning about an unrecognised media type. -/
def unknownMediaType : String := "unknown_mime_type"

/-- The warning about a pattern, if it names one media type that is not recognised. -/
def patternWarnings (document path pattern : String) : List Warning :=
  if pattern == "*/*" || Mime.isWildcard pattern then []
  else
    match Mime.parse? pattern with
    | none => []
    | some mediaType =>
      if Mime.isRecognized mediaType then []
      else
        [⟨unknownMediaType, "MIME type " ++ quote mediaType ++ " is not recognized", document,
          path⟩]

/-- The warnings about a list of patterns, each at its place. -/
def patternsWarnings (document path : String) : Nat -> List String -> List Warning
  | _, [] => []
  | index, pattern :: rest =>
    patternWarnings document (indexPath path index) pattern ++
      patternsWarnings document path (index + 1) rest

/-- The warnings about the media types of a body. -/
def bodyWarnings (document path : String) (body : Option (Body SchemaType)) : List Warning :=
  match body with
  | none => []
  | some body =>
    let place := joinPath path "encoding"
    if body.encoding.multi then patternsWarnings document place 0 body.encoding.values
    else body.encoding.values.flatMap (patternWarnings document place)

/-- The warnings about the media types of one type. -/
def Visit.warnings (document : String) (visit : Visit) : List Warning :=
  match visit.type with
  | .blob _ rules => patternsWarnings document (joinPath visit.path "accept") 0 rules.accept
  | .method _ _ contract =>
    bodyWarnings document (joinPath visit.path "input") contract.input ++
      bodyWarnings document (joinPath visit.path "output") contract.output
  | _ => []

/-- All findings about a document that could be read. -/
def Draft.check (d : Draft) : Reviewed Unit :=
  ⟨(), d.ruleIssues ++ d.placementIssues ++ d.visits.flatMap Visit.issues,
    d.visits.flatMap (Visit.warnings d.id)⟩

end LexiconCompiler
