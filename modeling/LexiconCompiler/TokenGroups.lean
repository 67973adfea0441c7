import LexiconCompiler.Casing
import LexiconCompiler.Problem
import LexiconCompiler.Schema.Document

set_option autoImplicit false
set_option relaxedAutoImplicit false

/-!
The tokens of a batch, grouped by authority. A token is a pair of a group and a name, and the pairs
keep the order in which they were first added.
-/

namespace LexiconCompiler

open LexiconCompiler.Text

/-- A token: its group is an authority, and its address is the group, a dot and the name. -/
structure Token where
  group : String
  name : String
  deriving DecidableEq, Repr

namespace Token

def key (token : Token) : String := token.group ++ "\x00" ++ token.name

/-- The address of a token, which is also its value. -/
def address (token : Token) : String := token.group ++ "." ++ token.name

end Token

/-- Tokens in the order they were added. -/
structure TokenGroups where
  tokens : List Token
  deriving DecidableEq, Repr

namespace TokenGroups

def empty : TokenGroups := ⟨[]⟩

def contains (g : TokenGroups) (token : Token) : Bool :=
  g.tokens.any fun other => other.key == token.key

def add (g : TokenGroups) (token : Token) : TokenGroups :=
  if g.contains token then g else ⟨g.tokens ++ [token]⟩

/-- The groups in order of first occurrence. -/
def groups (g : TokenGroups) : List String := distinct (g.tokens.map Token.group)

/-- The names in a group in order of first occurrence. -/
def names (g : TokenGroups) (group : String) : List String :=
  (g.tokens.filter fun token => token.group == group).map Token.name

def count (g : TokenGroups) : Nat := g.tokens.length

/-- The first name of a group that an earlier one has too, once both are capitalised. -/
def nameClash? (group : String) : List (String × String) -> List String -> Option Problem
  | _, [] => none
  | taken, name :: rest =>
    let key := lower (Casing.title name)
    match taken.lookup key with
    | some other => some (.tokenClash group other name)
    | none => nameClash? group ((key, name) :: taken) rest

/-- The first group whose constant an earlier one has too, or with a clash of names inside. -/
def clash? (g : TokenGroups) : List (String × String) -> List String -> Option Problem
  | _, [] => none
  | taken, group :: rest =>
    let constant := Casing.screaming group
    match taken.lookup constant with
    | some other => some (.groupClash other group constant)
    | none =>
      (nameClash? group [] (g.names group)).or (g.clash? ((constant, group) :: taken) rest)

/-- What keeps the groups from being written as constants. -/
def problem? (g : TokenGroups) : Option Problem := g.clash? [] g.groups

def ofDocument (document : Document) : List Token :=
  (document.defs.filter fun definition => definition.type.kind == .token).map fun definition =>
    ⟨document.nsid.authority,
      if definition.name == mainDef then document.nsid.name
      else document.nsid.name ++ "#" ++ definition.name⟩

def build (documents : List Document) : Except Problem TokenGroups :=
  let g := (documents.flatMap ofDocument).foldl add empty
  match g.problem? with
  | some problem => .error problem
  | none => .ok g

end TokenGroups

end LexiconCompiler
