import LexiconCompiler.TokenGroups

set_option autoImplicit false
set_option relaxedAutoImplicit false

/-!
Tokens as they are kept while they come in: the groups in order, the names of each group, and the
keys of the tokens that are known. What is asked of them is never searched for in all tokens.
-/

namespace LexiconCompiler

open LexiconCompiler.Text

/-- The groups of tokens, each with its names, and the keys of the tokens. -/
structure TokenTable where
  groups : List String
  namesOf : List (String × List String)
  keys : List String
  deriving DecidableEq, Repr

namespace TokenTable

def empty : TokenTable := ⟨[], [], []⟩

/-- Puts a name behind those of its group, which may be new. -/
def insertName (group name : String) : List (String × List String) -> List (String × List String)
  | [] => [(group, [name])]
  | (other, names) :: rest =>
    if other == group then (other, names ++ [name]) :: rest
    else (other, names) :: insertName group name rest

/-- Adds a token, and tells whether it is new. -/
def add (t : TokenTable) (token : Token) : TokenTable × Bool :=
  if t.keys.contains token.key then (t, false)
  else
    let isKnown := (t.namesOf.lookup token.group).isSome
    (⟨if isKnown then t.groups else t.groups ++ [token.group],
      insertName token.group token.name t.namesOf, t.keys ++ [token.key]⟩, true)

/-- Adds tokens one after the other, and tells of each whether it was new. -/
def addAll (t : TokenTable) : List Token -> TokenTable × List Bool
  | [] => (t, [])
  | token :: rest =>
    let (next, isNew) := t.add token
    let (last, answers) := next.addAll rest
    (last, isNew :: answers)

/-- The names of a group in order, none if there is no such group. -/
def names (t : TokenTable) (group : String) : List String := (t.namesOf.lookup group).getD []

def count (t : TokenTable) : Nat := t.keys.length

/-- The first group whose constant an earlier one has too, or with a clash of names inside. -/
def clashAmong? (constant : String -> String) (names : String -> List String) :
    List (String × String) -> List String -> Option Problem
  | _, [] => none
  | taken, group :: rest =>
    match taken.lookup (constant group) with
    | some other => some (.groupClash other group (constant group))
    | none =>
      (TokenGroups.nameClash? group [] (names group)).or
        (clashAmong? constant names ((constant group, group) :: taken) rest)

/-- What keeps the groups from being written as constants, given how parts are cut into words. -/
def problem? (t : TokenTable) (snake : List Char -> List Char) : Option Problem :=
  clashAmong? (Casing.screamingWith snake) t.names [] t.groups

end TokenTable

end LexiconCompiler
