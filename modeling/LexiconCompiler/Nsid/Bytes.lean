import LexiconCompiler.Nsid

set_option autoImplicit false
set_option relaxedAutoImplicit false

/-!
Identifiers in bytes. The bytes may be no text at all, and each of them is looked at on its own.
-/

namespace LexiconCompiler

open LexiconCompiler.Text

/-- What is wrong with the bytes of one segment. -/
inductive SegmentByteFault where
  | empty
  | leadingDigit (segment : List UInt8)
  | leadingHyphen (segment : List UInt8)
  | badByte (byte : UInt8) (segment : List UInt8)
  deriving DecidableEq, Repr

/-- Why bytes are no identifier. -/
inductive NsidByteFault where
  | empty
  | noAuthority (bytes : List UInt8)
  | badSegment (bytes : List UInt8) (fault : SegmentByteFault)
  deriving DecidableEq, Repr

namespace Nsid

def isLetterByte (b : UInt8) : Bool := (0x61 ≤ b && b ≤ 0x7A) || (0x41 ≤ b && b ≤ 0x5A)

def isDigitByte (b : UInt8) : Bool := 0x30 ≤ b && b ≤ 0x39

def dotByte : UInt8 := 0x2E

def hyphenByte : UInt8 := 0x2D

/-- The first byte of a segment that breaks its rule. -/
def scanBytes (isName : Bool) (segment : List UInt8) :
    Bool -> List UInt8 -> Option SegmentByteFault
  | _, [] => none
  | first, b :: rest =>
    if isLetterByte b || isDigitByte b then scanBytes isName segment false rest
    else if b == hyphenByte && !isName then
      if first then some (.leadingHyphen segment) else scanBytes isName segment false rest
    else some (.badByte b segment)

/-- What is wrong with the bytes of a segment, if anything. -/
def segmentByteFault? (isName : Bool) : List UInt8 -> Option SegmentByteFault
  | [] => some .empty
  | b :: rest =>
    if isDigitByte b then some (.leadingDigit (b :: rest))
    else scanBytes isName (b :: rest) true (b :: rest)

/-- The first fault of a list of segments, the last of which is the name. -/
def segmentsByteFault? : List (List UInt8) -> Option SegmentByteFault
  | [] => none
  | [name] => segmentByteFault? true name
  | segment :: rest => (segmentByteFault? false segment).or (segmentsByteFault? rest)

/-- The text of bytes that stand for one character each. -/
def asciiText (bytes : List UInt8) : String :=
  String.ofList (bytes.map fun b => Char.ofNat b.toNat)

/-- Reads bytes as an identifier. -/
def ofBytes (bytes : List UInt8) : Except NsidByteFault Nsid :=
  if bytes.isEmpty then .error .empty
  else
    let segments := bytes.splitOn dotByte
    if segments.length < 2 then .error (.noAuthority bytes)
    else
      match segmentsByteFault? segments with
      | some fault => .error (.badSegment bytes fault)
      | none => .ok ⟨segments.map asciiText⟩

end Nsid

end LexiconCompiler
