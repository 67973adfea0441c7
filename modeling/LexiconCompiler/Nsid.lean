import LexiconCompiler.Text.Basic
import LexiconCompiler.Text.Quoted
import LexiconCompiler.Text.Utf8

set_option autoImplicit false
set_option relaxedAutoImplicit false

/-!
Namespaced identifiers such as `com.example.repo.getRecord`: at least two dotted segments, of which
the last is the name and the others are the authority.
-/

namespace LexiconCompiler

open LexiconCompiler.Text

/-- What is wrong with one segment. -/
inductive SegmentFault where
  | empty
  | leadingDigit (segment : String)
  | leadingHyphen (segment : String)
  | badCharacter (lead : Char) (segment : String)
  deriving DecidableEq, Repr

/-- Why a text is no identifier. -/
inductive NsidFault where
  | empty
  | noAuthority (text : String)
  | badSegment (text : String) (fault : SegmentFault)
  deriving DecidableEq, Repr

def SegmentFault.message : SegmentFault -> String
  | .empty => "empty segment"
  | .leadingDigit segment => "segment " ++ quote segment ++ " starts with a digit"
  | .leadingHyphen segment => "segment " ++ quote segment ++ " starts with a hyphen"
  | .badCharacter lead segment =>
    "invalid character " ++ quoteChar lead ++ " in segment " ++ quote segment

def NsidFault.message : NsidFault -> String
  | .empty => "empty NSID"
  | .noAuthority text => "NSID " ++ quote text ++ " needs an authority and a name"
  | .badSegment text fault => "NSID " ++ quote text ++ ": " ++ fault.message

/-- A parsed identifier, given by its segments. -/
structure Nsid where
  segments : List String
  deriving DecidableEq, Repr

namespace Nsid

/-- The first character of a segment that breaks its rule. Hyphens stand in authority segments
only, and not in front. -/
def scanSegment (isName : Bool) (segment : String) : Bool -> List Char -> Option SegmentFault
  | _, [] => none
  | first, c :: rest =>
    if isAsciiAlnum c then scanSegment isName segment false rest
    else if c == '-' && !isName then
      if first then some (.leadingHyphen segment) else scanSegment isName segment false rest
    else some (.badCharacter (leadByte c) segment)

/-- What is wrong with a segment, if anything. -/
def segmentFault? (isName : Bool) (segment : String) : Option SegmentFault :=
  match segment.toList with
  | [] => some .empty
  | c :: rest =>
    if isAsciiDigit c then some (.leadingDigit segment)
    else scanSegment isName segment true (c :: rest)

/-- The first fault of a list of segments, the last of which is the name. -/
def segmentsFault? : List String -> Option SegmentFault
  | [] => none
  | [name] => segmentFault? true name
  | segment :: rest => (segmentFault? false segment).or (segmentsFault? rest)

def parse (text : String) : Except NsidFault Nsid :=
  if text.isEmpty then .error .empty
  else
    let segments := split '.' text
    if segments.length < 2 then .error (.noAuthority text)
    else
      match segmentsFault? segments with
      | some fault => .error (.badSegment text fault)
      | none => .ok ⟨segments⟩

def isValid (text : String) : Bool :=
  match parse text with
  | .ok _ => true
  | .error _ => false

def text (nsid : Nsid) : String := joinWith "." nsid.segments

def authoritySegments (nsid : Nsid) : List String := nsid.segments.dropLast

def authority (nsid : Nsid) : String := joinWith "." nsid.authoritySegments

def name (nsid : Nsid) : String := nsid.segments.getLastD ""

end Nsid

end LexiconCompiler
