set_option autoImplicit false
set_option relaxedAutoImplicit false

/-!
Cutting, joining and searching text. The working definitions are on lists of characters; the ones
on `String` are their images.
-/

namespace LexiconCompiler.Text

def isAsciiLetter (c : Char) : Bool :=
  ('a' ≤ c && c ≤ 'z') || ('A' ≤ c && c ≤ 'Z')

def isAsciiDigit (c : Char) : Bool := '0' ≤ c && c ≤ '9'

/-- Letters and digits of the ASCII range. -/
def isAsciiAlnum (c : Char) : Bool := isAsciiLetter c || isAsciiDigit c

/-- White space of every script. -/
def isSpace (c : Char) : Bool :=
  ('\t' ≤ c && c ≤ '\r') || c == ' ' || c == '\u0085' || c == '\u00a0' || c == '\u1680' ||
    ('\u2000' ≤ c && c ≤ '\u200a') || c == '\u2028' || c == '\u2029' || c == '\u202f' ||
    c == '\u205f' || c == '\u3000'

/-- The pieces between the separators; `n` separators give `n + 1` pieces. -/
def splitList (separator : Char) : List Char -> List (List Char)
  | [] => [[]]
  | c :: rest =>
    if c == separator then [] :: splitList separator rest
    else
      match splitList separator rest with
      | [] => [[c]]
      | piece :: pieces => (c :: piece) :: pieces

/-- The maximal pieces free of separators; empty pieces are dropped. -/
def fieldsList (isSeparator : Char -> Bool) : List Char -> List (List Char)
  | [] => []
  | c :: rest =>
    if isSeparator c then fieldsList isSeparator rest
    else
      match rest with
      | [] => [[c]]
      | next :: _ =>
        if isSeparator next then [c] :: fieldsList isSeparator rest
        else
          match fieldsList isSeparator rest with
          | [] => [[c]]
          | piece :: pieces => (c :: piece) :: pieces

/-- The text before and after the first occurrence of a character. -/
def cutList (mark : Char) : List Char -> Option (List Char × List Char)
  | [] => none
  | c :: rest =>
    if c == mark then some ([], rest)
    else (cutList mark rest).map fun (before, after) => (c :: before, after)

/-- Drops white space at both ends. -/
def trimList (cs : List Char) : List Char :=
  ((cs.dropWhile isSpace).reverse.dropWhile isSpace).reverse

/-- The pieces of a text between the separators. -/
def split (separator : Char) (s : String) : List String :=
  (splitList separator s.toList).map String.ofList

/-- The text before and after the first occurrence of a character. -/
def cut (mark : Char) (s : String) : Option (String × String) :=
  (cutList mark s.toList).map fun (before, after) => (String.ofList before, String.ofList after)

/-- The pieces with the separator between neighbours. -/
def joinWith (separator : String) : List String -> String
  | [] => ""
  | [piece] => piece
  | piece :: pieces => piece ++ separator ++ joinWith separator pieces

/-- A text without white space at its ends. -/
def trim (s : String) : String := String.ofList (trimList s.toList)

def startsWith (cs start : List Char) : Bool := start.isPrefixOf cs

/-- Whether a text ends with another one. -/
def endsWith (s ending : String) : Bool := ending.toList.isSuffixOf s.toList

/-- What follows a given beginning, if the text has it. -/
def dropStart? : List Char -> List Char -> Option (List Char)
  | cs, [] => some cs
  | [], _ :: _ => none
  | c :: cs, d :: ds => if c == d then dropStart? cs ds else none

/-- Whether a text is non-empty and consists of ASCII letters and digits. -/
def isAlnumWord (s : String) : Bool := !s.isEmpty && s.toList.all isAsciiAlnum

/-- The first occurrence of each entry, in order. -/
def distinct {α : Type} [BEq α] : List α -> List α
  | [] => []
  | x :: xs => x :: (distinct xs).filter fun y => !(y == x)

end LexiconCompiler.Text
