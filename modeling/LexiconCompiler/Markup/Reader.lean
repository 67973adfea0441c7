import LexiconCompiler.Markup.Node
import LexiconCompiler.Markup.Token

set_option autoImplicit false
set_option relaxedAutoImplicit false

/-!
Document trees from text. JSON text is read as brackets, so that one reader serves both notations.
Only the first document of a text counts, and reading ends with the token that shows its end.
-/

namespace LexiconCompiler.Markup

/-- The state of reading trees. `anchors` has the names that were given, newest first, with the
numbers of their trees, and `named` the trees of those numbers that have been read; `handles` has
what the tags of a handle start with, and `fuel` bounds the search for a token. -/
structure Reading where
  scanner : Scanner
  anchors : List (String × Nat)
  named : List (Nat × Outline)
  handles : List (String × String)
  fuel : Nat

abbrev Build := StateT Reading Option

namespace Build

def peek : Build Token := fun r => do
  let scanner ← r.scanner.settle r.fuel
  let token ← scanner.queue.head?
  return (token, { r with scanner := scanner })

def skip : Build Unit := modify fun r => { r with scanner := r.scanner.take }

/-- What the names of the common tags start with. -/
def commonTags : String := "tag:yaml.org,2002:"

/-- What the tags of the two usual handles start with. -/
def usualHandles : List (String × String) := [("!", "!"), ("!!", commonTags)]

def shortTag (name : String) : String :=
  match Text.dropStart? name.toList commonTags.toList with
  | some rest => "!!" ++ String.ofList rest
  | none => name

/-- The tag of a full name; a lone mark is no tag. -/
def tagOf (name : String) : Option Tag :=
  if name == "!" then none else some (.ofName (shortTag name))

/-- The tag that a handle and a suffix spell; the handle has to be known. -/
def spelledTag (handle suffix : String) : Build (Option Tag) := do
  if handle.isEmpty then return tagOf suffix
  else
    match (← get).handles.lookup handle with
    | some stem => return tagOf (stem ++ suffix)
    | none => failure

/-- The anchor and tag in front of a tree, in either order. -/
structure Properties where
  anchor : Option String
  tagged : Bool
  tag : Option Tag

def takeTag (p : Properties) : Build Properties := do
  match ← peek with
  | .tag handle suffix =>
    skip
    let tag ← spelledTag handle suffix
    return { p with tagged := true, tag := tag }
  | _ => return p

def takeAnchor (p : Properties) : Build Properties := do
  match ← peek with
  | .anchor name =>
    skip
    return { p with anchor := some name }
  | _ => return p

def properties : Build Properties := do
  match ← peek with
  | .anchor _ => takeAnchor ⟨none, false, none⟩ >>= takeTag
  | _ => takeTag ⟨none, false, none⟩ >>= fun p => if p.tagged then takeAnchor p else return p

/-- Gives a tree its name, which its own parts may use. -/
def named (p : Properties) (read : Build Outline) : Build Outline := do
  match p.anchor with
  | none => read
  | some name =>
    let number := (← get).anchors.length
    modify fun r => { r with anchors := (name, number) :: r.anchors }
    let tree ← read
    modify fun r => { r with named := (number, tree) :: r.named }
    return tree

/-- The tree of a scalar: a tag wins, quoted text is a string, plain text tells its own type. -/
def scalarNode (p : Properties) (plain : Bool) (text : String) : Build Outline :=
  named p do
    return .scalar (p.tag.getD (if plain then plainTag text else .str)) text

/-- The tree of an alias; its name has to be known. -/
def aliasNode (name : String) : Build Outline := do
  match (← get).anchors.lookup name with
  | some number => return .alias name number
  | none => failure

/-- A tree as a key. -/
def keyOf (key : Outline) : Build Key := do
  return key.toKey (← get).named

mutual

/-- Reads a tree. Block collections stand only outside brackets, and a sequence at the indentation
of its key only in a mapping. -/
def tree : Nat -> Bool -> Bool -> Build Outline
  | 0, _, _ => failure
  | fuel + 1, block, indentless => do
    match ← peek with
    | .alias name =>
      skip
      aliasNode name
    | _ =>
      let p ← properties
      match ← peek with
      | .scalar plain text =>
        skip
        scalarNode p plain text
      | .flowSequence =>
        named p do
          skip
          return .sequence (← flowItems fuel true)
      | .flowMapping =>
        named p do
          skip
          return .mapping (← flowEntries fuel true)
      | token =>
        if token == .blockEntry && indentless then
          named p do
            return .sequence (← alignedItems fuel)
        else if token == .blockSequence && block then
          named p do
            skip
            return .sequence (← blockItems fuel)
        else if token == .blockMapping && block then
          named p do
            skip
            return .mapping (← blockEntries fuel)
        else if p.tagged || p.anchor.isSome then scalarNode p true ""
        else failure

/-- Reads a tree unless the next token shows that it is absent. -/
def treeUnless : Nat -> Bool -> Bool -> List Token -> Build Outline
  | 0, _, _, _ => failure
  | fuel + 1, block, indentless, ends => do
    if ends.contains (← peek) then return .empty else tree fuel block indentless

/-- Reads a value and its mark; without the mark it is absent. -/
def valueUnless : Nat -> Bool -> List Token -> Build Outline
  | 0, _, _ => failure
  | fuel + 1, block, ends => do
    if (← peek) == .value then
      skip
      treeUnless fuel block block ends
    else return .empty

def blockItems : Nat -> Build (List Outline)
  | 0 => failure
  | fuel + 1 => do
    match ← peek with
    | .blockEntry =>
      skip
      let item ← treeUnless fuel true false [.blockEntry, .blockEnd]
      let items ← blockItems fuel
      return item :: items
    | .blockEnd =>
      skip
      return []
    | _ => failure

/-- The items of a sequence at the indentation of its key. -/
def alignedItems : Nat -> Build (List Outline)
  | 0 => failure
  | fuel + 1 => do
    match ← peek with
    | .blockEntry =>
      skip
      let item ← treeUnless fuel true false [.blockEntry, .key, .value, .blockEnd]
      let items ← alignedItems fuel
      return item :: items
    | _ => return []

def blockEntries : Nat -> Build (List (Key × Outline))
  | 0 => failure
  | fuel + 1 => do
    match ← peek with
    | .key =>
      skip
      let key ← keyOf (← treeUnless fuel true true [.key, .value, .blockEnd])
      let value ← valueUnless fuel true [.key, .value, .blockEnd]
      let entries ← blockEntries fuel
      return (key, value) :: entries
    | .blockEnd =>
      skip
      return []
    | _ => failure

/-- The items of a sequence in brackets; one with a key is a mapping of one entry. -/
def flowItems : Nat -> Bool -> Build (List Outline)
  | 0, _ => failure
  | fuel + 1, first => do
    if !first && (← peek) == .flowEntry then skip
    else if !first && (← peek) != .flowSequenceEnd then failure
    match ← peek with
    | .flowSequenceEnd =>
      skip
      return []
    | .key =>
      skip
      let key ← keyOf (← pairKey fuel)
      let value ← valueUnless fuel false [.flowEntry, .flowSequenceEnd]
      let items ← flowItems fuel false
      return .mapping [(key, value)] :: items
    | _ =>
      let item ← tree fuel false false
      let items ← flowItems fuel false
      return item :: items

/-- The key of a mapping of one entry; an absent one takes a token with it. -/
def pairKey : Nat -> Build Outline
  | 0 => failure
  | fuel + 1 => do
    if [Token.value, .flowEntry, .flowSequenceEnd].contains (← peek) then
      skip
      return .empty
    else tree fuel false false

/-- The entries of a mapping in brackets; a key without a mark has no value. -/
def flowEntries : Nat -> Bool -> Build (List (Key × Outline))
  | 0, _ => failure
  | fuel + 1, first => do
    if !first && (← peek) == .flowEntry then skip
    else if !first && (← peek) != .flowMappingEnd then failure
    match ← peek with
    | .flowMappingEnd =>
      skip
      return []
    | .key =>
      skip
      let key ← keyOf (← treeUnless fuel false false [.value, .flowEntry, .flowMappingEnd])
      let value ← valueUnless fuel false [.flowEntry, .flowMappingEnd]
      let entries ← flowEntries fuel false
      return (key, value) :: entries
    | _ =>
      let key ← keyOf (← tree fuel false false)
      let entries ← flowEntries fuel false
      return (key, Outline.empty) :: entries

end

/-- Notes what the tags of a handle start with; a handle is given once. -/
def addHandle (name stem : String) : Build Unit := do
  if ((← get).handles.lookup name).isSome then failure
  else modify fun r => { r with handles := (name, stem) :: r.handles }

/-- Reads the directives in front of a document; the flag tells whether the version was given. -/
def directives : Nat -> Bool -> Build Unit
  | 0, _ => failure
  | fuel + 1, versioned => do
    match ← peek with
    | .directive (.version major minor) =>
      if versioned || major != 1 || minor != 1 then failure
      else
        skip
        directives fuel true
    | .directive (.handle name stem) =>
      addHandle name stem
      skip
      directives fuel versioned
    | _ => modify fun r => { r with handles := r.handles ++ usualHandles }

/-- Whether a token shows that a document is empty. -/
def endsDocument : Token -> Bool
  | .directive _ => true
  | .documentStart => true
  | .documentEnd => true
  | .streamEnd => true
  | _ => false

/-- Reads a document behind its marker line. -/
def markedDocument (fuel : Nat) : Build Outline := do
  match ← peek with
  | .documentStart =>
    skip
    if endsDocument (← peek) then return .empty else tree fuel true false
  | _ => failure

def document (fuel : Nat) : Build Outline := do
  match ← peek with
  | .streamEnd => return .empty
  | token =>
    directives fuel false
    let root ←
      match token with
      | .directive _ => markedDocument fuel
      | .documentStart => markedDocument fuel
      | _ => tree fuel true false
    let _ ← peek
    return root

end Build

/-- Reads a document text; no text at all is an empty line. Every call of a reader takes a token or
is followed by one that does, within two calls, and a character gives at most four tokens. -/
def TextGraph.parse? (text : String) : Option TextGraph :=
  let cs := if text.isEmpty then ['\n'] else text.toList
  let size := cs.length
  ((Build.document (16 * size + 64)).run ⟨.start cs, [], [], [], size + 8⟩).map
    fun (root, r) => ⟨r.named, root⟩

/-- How much of a tree that holds itself is written out: a document has ten levels at most, and on
each an alias may stand for a tree. -/
def innerDepth : Nat := 20

/-- Reads a document text. Aliases that stand one inside the other, but not inside their own trees,
are no more than the trees that have names. -/
def Node.parse? (text : String) : Option Node :=
  (TextGraph.parse? text).map fun g => g.unfold (g.named.length + innerDepth)

end LexiconCompiler.Markup
